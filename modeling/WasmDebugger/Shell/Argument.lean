import WasmDebugger.Numeral
import WasmDebugger.Breakpoints

/-!
# Arguments

How numbers and triggers are typed on a command line: in decimal, in hexadecimal behind 0x, or in
octal behind 0. A number too large for its kind counts as the largest one.
-/

namespace WasmDebugger.Argument

open Numeral

/-- A number below `2 ^ 64`. It starts with a digit. -/
def unsigned? (text : String) : Option UInt64 :=
  match text.toList with
  | [] => none
  | c :: rest =>
    if c.isDigit then
      match leading? .marked (c :: rest) with
      | none => none
      | some n => if isEnd n.rest then some n.toUnsigned else none
    else none

/-- A number below `2 ^ 32`. -/
def word? (text : String) : Option UInt32 :=
  (unsigned? text).bind fun n => if n.toNat < UInt32.size then some n.toUInt32 else none

/-- A number that may have a sign. Without any digit a text is zero if it starts with a NUL. -/
def signed? (text : String) : Option Int :=
  match text.toList with
  | [] => none
  | c :: rest =>
    match leading? .marked (c :: rest) with
    | none => if isEnd (c :: rest) then some 0 else none
    | some n => if isEnd n.rest then some n.toSigned else none

def trigger? : String → Option Trigger
  | "r" => some .read
  | "w" => some .write
  | "rw" => some .readWrite
  | _ => none

end WasmDebugger.Argument
