import WasmDebugger.Program

/-!
# Command line

Carries out what `Program.plan` makes of the arguments, line by line and on the real files.
-/

namespace WasmDebugger.Program

def octets (text : String) : String := Octets.ofBytes text.toUTF8.toList

def put (stream : IO.FS.Stream) (text : String) : IO Unit := do
  unless text.isEmpty do
    stream.write ⟨(Octets.toBytes text).toArray⟩
    stream.flush

/-- The contents of a file that can be read. -/
def fetch (path : String) : IO (Option (List UInt8)) := do
  match String.fromUTF8? ⟨(Octets.toBytes (untilNul path)).toArray⟩ with
  | none => pure none
  | some name =>
    try
      let bytes ← IO.FS.readBinFile name
      pure (some bytes.toList)
    catch _ => pure none

/-- The file that a line asks for. -/
def fetchFor (line : Line) : IO Files := do
  match line.path? with
  | none => pure fun _ => none
  | some path =>
    let content ← fetch path
    pure fun _ => content

/-- More instructions than can be carried out. -/
def fuel : Nat := Nat.pow 2 62

/-- Carries out a line and says whether another one is to follow. -/
def carryOut (sh : Shell) (line : String) : IO (Shell × Bool) := do
  let files ← fetchFor (Line.parse line)
  let (sh, r) := sh.execute fuel files line
  put (← IO.getStderr) (errorText r)
  put (← IO.getStdout) r.out
  pure (sh, !r.quits)

def carryOutAll (sh : Shell) : List String → IO (Shell × Bool)
  | [] => pure (sh, true)
  | line :: rest => do
    let (sh, goOn) ← carryOut sh line
    if goOn then carryOutAll sh rest else pure (sh, false)

/-- The next line of a stream, and whether there was anything left to read. -/
partial def readLine (input : IO.FS.Stream) (line : List UInt8) : IO (String × Bool) := do
  let chunk ← input.read 1
  match chunk.toList with
  | [] => pure (Octets.ofBytes line.reverse, !line.isEmpty)
  | b :: _ => if b = 10 then pure (Octets.ofBytes line.reverse, true) else readLine input (b :: line)

partial def interact (input : IO.FS.Stream) (prompting : Bool) (sh : Shell) : IO Unit := do
  if prompting then put (← IO.getStdout) Shell.prompt
  let (line, found) ← readLine input []
  if found then
    let (sh, goOn) ← carryOut sh line
    if goOn then interact input prompting sh

def start (o : Options) : IO UInt32 := do
  let (sh, goOn) ← carryOutAll ⟨⟨o.config, none⟩, 0⟩ (loadLine? o).toList
  if !goOn then pure 0
  else if o.scriptPath.isEmpty then
    let input ← IO.getStdin
    interact input (← input.isTty) sh
    pure 0
  else
    match ← fetch o.scriptPath with
    | none =>
      put (← IO.getStderr) (cannotOpenScript o.scriptPath)
      pure 1
    | some script =>
      let (sh, _) ← carryOutAll sh (linesOf (Octets.ofBytes script))
      pure (if sh.errors = 0 then 0 else 1)

/-- The variables of the environment that are set. -/
def environment : IO (String → Option String) := do
  let names := [Config.traceVariable, Config.depthVariable, Config.timeoutVariable]
  let values ← names.mapM fun name => do
    let value ← IO.getEnv name
    pure (name, value.map octets)
  pure fun name => (values.lookup name).join

end WasmDebugger.Program

open WasmDebugger in
def main (args : List String) : IO UInt32 := do
  match Program.plan (← Program.environment) (args.map Program.octets) with
  | .reject message =>
    Program.put (← IO.getStderr) message
    pure 1
  | .print text =>
    Program.put (← IO.getStdout) text
    pure 0
  | .debug o => Program.start o
