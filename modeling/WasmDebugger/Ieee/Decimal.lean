import WasmDebugger.Numeral
import WasmDebugger.Ieee.Arithmetic

/-!
# Floating-point numbers in decimal

* `Format.toFixed`: a fixed number of digits after the point.
* `Format.toGeneral`: a number of significant digits, positional from `10 ^ -4` up to that many
  digits and with an exponent outside; trailing zeros are dropped.

Both round the exact value once, a tie to the even digit.
-/

namespace WasmDebugger.Ieee

open Numeral

/-- A natural number with a point before its last `places` digits. -/
def withPoint (places n : Nat) : String :=
  if places = 0 then decimal n
  else
    let fraction := padLeft places (decimal (n % Nat.pow 10 places))
    decimal (n / Nat.pow 10 places) ++ "." ++ fraction

/-- The exponent of the leading decimal digit of a positive quotient. -/
def decimalExponent (num den : Nat) : Int :=
  if den ≤ num then ((Nat.toDigits 10 (num / den)).length : Int) - 1
  else
    let digits := (Nat.toDigits 10 (den / num)).length
    if den ≤ num * Nat.pow 10 (digits - 1) then 1 - (digits : Int) else -(digits : Int)

/-- `num / den * 10 ^ exponent` rounded to a natural. -/
def divScaledDecimal (num den : Nat) (exponent : Int) : Nat :=
  if 0 ≤ exponent then divNearestEven (num * Nat.pow 10 exponent.toNat) den
  else divNearestEven num (den * Nat.pow 10 (-exponent).toNat)

/-- `n` and `places` with the zeros at the end of the fraction taken off. -/
def dropZeros : Nat → Nat → Nat × Nat
  | 0, n => (0, n)
  | places + 1, n => if n % 10 = 0 then dropZeros places (n / 10) else (places + 1, n)

/-- A positive quotient to `digits` significant digits. -/
def generalQuotient (digits num den : Nat) : String :=
  let estimate := decimalExponent num den
  let rounded := divScaledDecimal num den ((digits : Int) - 1 - estimate)
  let (exponent, rounded) :=
    if rounded = Nat.pow 10 digits then (estimate + 1, Nat.pow 10 (digits - 1))
    else (estimate, rounded)
  if -4 ≤ exponent && exponent < digits then
    let (places, n) := dropZeros ((digits : Int) - 1 - exponent).toNat rounded
    withPoint places n
  else
    let (places, n) := dropZeros (digits - 1) rounded
    withPoint places n ++ (if exponent < 0 then "e-" else "e+") ++
      padLeft 2 (decimal exponent.natAbs)

namespace Format

variable (f : Format)

/-- The text of a pattern, given how the magnitude of a finite one is written. -/
def toText (magnitude : Nat → Nat → String) (bits : Nat) : String :=
  let sign := if f.negative bits then "-" else ""
  match f.decode bits with
  | .nan _ _ => sign ++ "nan"
  | .infinite _ => sign ++ "inf"
  | .finite _ m e =>
    let (n, d) := scale m 1 e
    sign ++ magnitude n d

def toFixed (places bits : Nat) : String :=
  f.toText (fun n d => withPoint places (divNearestEven (n * Nat.pow 10 places) d)) bits

def toGeneral (digits bits : Nat) : String :=
  f.toText (fun n d => if n = 0 then "0" else generalQuotient digits n d) bits

end Format

end WasmDebugger.Ieee
