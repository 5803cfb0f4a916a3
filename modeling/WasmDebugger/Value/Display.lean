import WasmDebugger.Value
import WasmDebugger.Ieee.Decimal

/-!
# Values as text

`Value.describe` shows the kind, the bits in hexadecimal and the number: an integer unsigned and,
when the sign bit is set, signed as well; a float in decimal with the places of `Value.floatPlaces`.
-/

namespace WasmDebugger

open Numeral

/-- Digits after the point of a described float. -/
def Value.floatPlaces : Width → Nat
  | .w32 => 8
  | .w64 => 16

private def describeInteger {w : Nat} (b : BitVec w) : String :=
  let unsigned := hex (w / 4) b.toNat ++ " = " ++ decimal b.toNat
  if b.msb then unsigned ++ " = " ++ Numeral.signed b.toInt else unsigned

private def describeFloat (f : Ieee.Format) (w : Width) (b : BitVec w.bits) : String :=
  hex (w.bits / 4) b.toNat ++ " ~ " ++ f.toFixed (Value.floatPlaces w) b.toNat

/-- Whether a value is a float that is not a number. -/
def Value.isNan : Value → Bool
  | .f32 b => (Ieee.binary32.decode b.toNat).isNan
  | .f64 b => (Ieee.binary64.decode b.toNat).isNan
  | _ => false

def Value.describe (v : Value) : String :=
  let text := match v with
    | .i32 b => describeInteger b
    | .i64 b => describeInteger b
    | .f32 b => describeFloat Ieee.binary32 .w32 b
    | .f64 b => describeFloat Ieee.binary64 .w64 b
  v.type.name ++ " : 0x" ++ text

end WasmDebugger
