import WasmDebugger.Options
import WasmDebugger.Shell

/-!
# The program

From arguments and environment to what is printed.

* `Program.plan`: what the arguments come to.
* `Program.run`: the whole program on given files and input.
-/

namespace WasmDebugger.Program

def version : String := "wasmdbg 0.2.0"

/-- What is to be done. -/
inductive Plan where
  /-- The arguments cannot be used. -/
  | reject (message : String)
  | print (text : String)
  | debug (options : Options)

def plan (env? : String → Option String) (args : List String) : Plan :=
  let defaults : Options := { config := Config.applyEnvironment {} env? }
  match defaults.parse args with
  | (_, some e) => .reject (e.text ++ Options.usage)
  | (o, none) =>
    if o.showHelp then .print Options.usage
    else if o.showVersion then .print (version ++ "\n")
    else .debug o

/-- The line that loads the module that was asked for. -/
def loadLine? (o : Options) : Option String :=
  if o.filePath.isEmpty then none else some ("load " ++ o.filePath)

def cannotOpenScript (path : String) : String := "[DEBUG] unable to open " ++ path ++ "\n"

structure Result where
  exitCode : Nat
  out : String := ""
  err : String := ""
  deriving DecidableEq, Repr

/-- What a line writes to the error stream: notices come while it is carried out. -/
def errorText (r : Reaction) : String := String.join (r.notices.map Notice.text) ++ r.err

/-- What a shell has printed in response to lines. -/
def resultOf (exitCode : Nat) (reactions : List Reaction) : Result where
  exitCode := exitCode
  out := Shell.transcript false reactions
  err := String.join (reactions.map errorText)

/-- Carries out the first line and then the script, or the input when there is none. Commands of a
script that are refused make the program fail. -/
def debug (fuel : Nat) (files : Files) (input : String) (o : Options) : Result :=
  let (sh, first) := Shell.run fuel files ⟨⟨o.config, none⟩, 0⟩ (loadLine? o).toList
  if first.any (·.quits) then resultOf 0 first
  else if o.scriptPath.isEmpty then
    let (_, rest) := sh.run fuel files (linesOf input)
    resultOf 0 (first ++ rest)
  else
    match files (untilNul o.scriptPath) with
    | none =>
      let result := resultOf 1 first
      { result with err := result.err ++ cannotOpenScript o.scriptPath }
    | some script =>
      let (sh, rest) := sh.run fuel files (linesOf (Octets.ofBytes script))
      resultOf (if sh.errors = 0 then 0 else 1) (first ++ rest)

def run (fuel : Nat) (files : Files) (env? : String → Option String) (args : List String)
    (input : String) : Result :=
  match plan env? args with
  | .reject message => { exitCode := 1, err := message }
  | .print text => { exitCode := 0, out := text }
  | .debug o => debug fuel files input o

end WasmDebugger.Program
