/-!
# Binary floating-point formats

A floating-point number is a bit pattern; everything here is exact arithmetic on naturals.

* `Format`: the width of the exponent and fraction fields (`binary32`, `binary64`).
* `Format.decode`: what a pattern denotes, a `Datum`.
* `Format.roundQuotient`: the pattern nearest to a quotient of naturals, a tie going to the even
  significand, an excess to infinity and an underflow to a subnormal or zero. Every operation
  that rounds goes through it.
-/

namespace WasmDebugger.Ieee

/-- A sign bit, then the biased exponent, then the fraction of the significand. -/
structure Format where
  exponentBits : Nat
  fractionBits : Nat
  deriving DecidableEq, Repr

def binary32 : Format := ⟨8, 23⟩
def binary64 : Format := ⟨11, 52⟩

/-- What a bit pattern denotes. A finite datum is `significand * 2 ^ exponent` with its sign. -/
inductive Datum where
  | nan (negative : Bool) (fraction : Nat)
  | infinite (negative : Bool)
  | finite (negative : Bool) (significand : Nat) (exponent : Int)
  deriving DecidableEq, Repr

def Datum.isNan : Datum → Bool
  | .nan _ _ => true
  | _ => false

/-- The quotient rounded to the nearest natural, a tie to the even one. -/
def divNearestEven (num den : Nat) : Nat :=
  let quotient := num / den
  let twice := 2 * (num % den)
  if den < twice || (twice = den && quotient % 2 = 1) then quotient + 1 else quotient

/-- `num / den * 2 ^ exponent` as a quotient of naturals. -/
def scale (num den : Nat) (exponent : Int) : Nat × Nat :=
  if 0 ≤ exponent then (num * Nat.pow 2 exponent.toNat, den)
  else (num, den * Nat.pow 2 (-exponent).toNat)

namespace Format

/-- Weight of the sign bit. -/
def signPlace (f : Format) : Nat := Nat.pow 2 (f.exponentBits + f.fractionBits)

/-- Weight of the lowest exponent bit, which is one more than the largest fraction. -/
def fractionCount (f : Format) : Nat := Nat.pow 2 f.fractionBits

/-- The biased exponent of infinities and NaNs. -/
def topExponent (f : Format) : Nat := Nat.pow 2 f.exponentBits - 1

/-- The exponent of the unit in the last place of the subnormals. -/
def minExponent (f : Format) : Int :=
  2 - (Nat.pow 2 (f.exponentBits - 1) : Nat) - (f.fractionBits : Int)

/-- The fraction bit that marks a NaN as quiet. -/
def quietPlace (f : Format) : Nat := Nat.pow 2 (f.fractionBits - 1)

def signed (f : Format) (negative : Bool) (magnitude : Nat) : Nat :=
  if negative then f.signPlace + magnitude else magnitude

def infinity (f : Format) (negative : Bool) : Nat :=
  f.signed negative (f.topExponent * f.fractionCount)

/-- A quiet NaN whose fraction holds the low bits of `payload`. -/
def quietNan (f : Format) (negative : Bool) (payload : Nat) : Nat :=
  f.infinity negative + f.quietPlace + payload % f.quietPlace

/-- The NaN that stands for the result of an invalid operation. -/
def invalid (f : Format) : Nat := f.quietNan true 0

def negative (f : Format) (bits : Nat) : Bool := f.signPlace ≤ bits

def decode (f : Format) (bits : Nat) : Datum :=
  let fraction := bits % f.fractionCount
  let biased := bits / f.fractionCount % (f.topExponent + 1)
  if biased = f.topExponent then
    if fraction = 0 then .infinite (f.negative bits) else .nan (f.negative bits) fraction
  else if biased = 0 then .finite (f.negative bits) fraction f.minExponent
  else .finite (f.negative bits) (f.fractionCount + fraction) (f.minExponent + (biased - 1 : Nat))

/-! ## Rounding -/

/-- The exponent of the leading bit of a positive quotient. -/
def leadingExponent (num den : Nat) : Int :=
  let guess : Int := (num.log2 : Int) - den.log2
  let (n, d) := scale num den (-guess)
  if n < d then guess - 1 else guess

/-- The magnitude nearest to `num / den`. Patterns of one sign are ordered as the numbers they
denote, so a significand that rounds up to the next power of two carries into the exponent by
itself. -/
def roundMagnitude (f : Format) (num den : Nat) : Nat :=
  if num = 0 then 0
  else
    let lead := leadingExponent num den
    let ulp := max (lead - f.fractionBits) f.minExponent
    let (n, d) := scale num den (-ulp)
    min (f.infinity false) ((ulp - f.minExponent).toNat * f.fractionCount + divNearestEven n d)

def roundQuotient (f : Format) (negative : Bool) (num den : Nat) : Nat :=
  f.signed negative (f.roundMagnitude num den)

/-- The pattern nearest to `significand * 2 ^ exponent`. -/
def roundScaled (f : Format) (negative : Bool) (significand : Nat) (exponent : Int) : Nat :=
  let (n, d) := scale significand 1 exponent
  f.roundQuotient negative n d

/-- A NaN operand passed on: quiet, with its sign, its fraction cut or filled from the right to
the width of the new format. -/
def passNan (source target : Format) (negative : Bool) (fraction : Nat) : Nat :=
  target.quietNan negative (fraction * target.fractionCount / source.fractionCount)

end Format

end WasmDebugger.Ieee
