import WasmDebugger.Trap
import WasmDebugger.Breakpoints
import WasmDebugger.DebugNames

/-!
# Notices

What is to be noted while a module is loaded or executed, beside the answer that this comes to.
-/

namespace WasmDebugger

inductive Notice where
  /-- An instruction is about to be carried out. -/
  | traced (position : Position) (instr : Instr)
  /-- The host's answer to a call was not used. -/
  | refused (refusal : Refusal)
  /-- The names of a module were left out. -/
  | namesIgnored (error : LoadError)
  deriving DecidableEq, Repr

namespace Notice

def text : Notice → String
  | .traced position instr => "[TRACE] " ++ position.text ++ " " ++ instr.text ++ "\n"
  | .refused refusal => refusal.text
  | .namesIgnored error => DebugNames.warning error

def isTrace : Notice → Bool
  | .traced _ _ => true
  | _ => false

end Notice

end WasmDebugger
