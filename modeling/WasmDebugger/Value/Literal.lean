import WasmDebugger.Value
import WasmDebugger.Ieee.Literal

/-!
# Typed values

`Value.parse?` reads a value that a user typed.

* An integer is an optional sign, then decimal digits or the digits of a marked radix; its
  magnitude is below `2 ^ 64` and the signed number is taken modulo the width, so that `-1` and
  `0xffffffff` name the same `i32`.
* A float is any literal of `Ieee.Format.ofLiteral?`.
-/

namespace WasmDebugger

open Numeral

/-- The radix of an unsigned integer literal and its digits. A mark counts only with something
behind it. -/
def integerRadix : List Char → Nat × List Char
  | '0' :: mark :: d :: rest =>
    match mark with
    | 'x' | 'X' => (16, d :: rest)
    | 'o' | 'O' => (8, d :: rest)
    | 'b' | 'B' => (2, d :: rest)
    | _ => (10, '0' :: mark :: d :: rest)
  | text => (10, text)

/-- The integer that a literal denotes. -/
def integerLiteral? (text : List Char) : Option Int := do
  let (negative, text) := splitSign text
  let (radix, digits) := integerRadix text
  let magnitude ← natural? radix digits
  if magnitude < UInt64.size then some (if negative then -(magnitude : Int) else magnitude) else none

def Value.parse? (t : ValueType) (text : String) : Option Value :=
  match t with
  | .i32 => (integerLiteral? text.toList).map fun n => .i32 (BitVec.ofInt 32 n)
  | .i64 => (integerLiteral? text.toList).map fun n => .i64 (BitVec.ofInt 64 n)
  | .f32 => (Ieee.binary32.ofLiteral? text.toList).map fun n => .f32 (BitVec.ofNat 32 n)
  | .f64 => (Ieee.binary64.ofLiteral? text.toList).map fun n => .f64 (BitVec.ofNat 64 n)

end WasmDebugger
