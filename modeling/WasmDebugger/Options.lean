import WasmDebugger.Config
import WasmDebugger.Shell.Argument

/-!
# Options

What the program is asked for by its arguments.

* `Options.parse`: reads arguments from left to right. At the first one that cannot be used
  (`OptionError`) it stops, and what stood before it holds.
-/

namespace WasmDebugger

structure Options where
  config : Config := {}
  /-- A file of commands; empty when they come from the input. -/
  scriptPath : String := ""
  /-- A module to be loaded first; empty when there is none. -/
  filePath : String := ""
  showHelp : Bool := false
  showVersion : Bool := false

inductive OptionError where
  | missingValue (option : String)
  | callDepth (text : String)
  | timeout (text : String)
  | unknownOption (option : String)
  | unexpectedArgument (argument : String)
  deriving DecidableEq, Repr

def OptionError.text : OptionError → String
  | .missingValue option => "missing value for " ++ option ++ "\n"
  | .callDepth text => "invalid call depth: " ++ text ++ "\n"
  | .timeout text => "invalid timeout: " ++ text ++ "\n"
  | .unknownOption option => "unknown option: " ++ option ++ "\n"
  | .unexpectedArgument argument => "unexpected argument: " ++ argument ++ "\n"

namespace Options

def usage : String :=
  "usage: wasmdbg [options] [file.wasm]\n" ++
  "\n" ++
  "options:\n" ++
  "  --trace                  print every dispatched instruction\n" ++
  "  --max-call-depth N       limit the call stack to N frames\n" ++
  "  --import-timeout-ms N    fail import calls after N ms (0 = no limit)\n" ++
  "  --script FILE            read commands from FILE\n" ++
  "  -h, --help               show this help\n" ++
  "  --version                print the version\n" ++
  "\n" ++
  "environment: WASMDBG_TRACE, WASMDBG_MAX_CALL_DEPTH, WASMDBG_IMPORT_TIMEOUT_MS\n"

/-- The options that a value follows. -/
inductive ValueOption where
  | maxCallDepth
  | importTimeout
  | script
  deriving DecidableEq, Repr

def valueOption? : String → Option ValueOption
  | "--max-call-depth" => some .maxCallDepth
  | "--import-timeout-ms" => some .importTimeout
  | "--script" => some .script
  | _ => none

/-- The options under an option and its value. -/
def setValue (o : Options) (text : String) : ValueOption → Except OptionError Options
  | .maxCallDepth =>
    match Argument.word? text with
    | none => .error (.callDepth text)
    | some n =>
      if n = 0 then .error (.callDepth text) else .ok { o with config := o.config.setDepth n.toNat }
  | .importTimeout =>
    match Config.parseTimeout? text with
    | none => .error (.timeout text)
    | some ms => .ok { o with config := { o.config with importTimeout := ms } }
  | .script => .ok { o with scriptPath := text }

/-- The options under an argument that stands for itself. -/
def setSingle (o : Options) (arg : String) : Except OptionError Options :=
  if arg = "-h" || arg = "--help" then .ok { o with showHelp := true }
  else if arg = "--version" then .ok { o with showVersion := true }
  else if arg = "--trace" then .ok { o with config := { o.config with tracing := true } }
  else if arg.toList.head? = some '-' then .error (.unknownOption arg)
  else if o.filePath.isEmpty then .ok { o with filePath := arg }
  else .error (.unexpectedArgument arg)

/-- The options under all arguments up to one that cannot be used. -/
def parse (o : Options) : List String → Options × Option OptionError
  | [] => (o, none)
  | arg :: rest =>
    match valueOption? arg, rest with
    | none, rest =>
      match o.setSingle arg with
      | .error e => (o, some e)
      | .ok o => parse o rest
    | some _, [] => (o, some (.missingValue arg))
    | some option, text :: rest =>
      match o.setValue text option with
      | .error e => (o, some e)
      | .ok o => parse o rest

end Options

end WasmDebugger
