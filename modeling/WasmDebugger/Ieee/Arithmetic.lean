import WasmDebugger.Ieee.Format

/-!
# Floating-point arithmetic

The operations of a machine with correctly rounded binary floating point, on bit patterns. Each
exact result is formed in unbounded integers and rounded once (`Format.roundQuotient`).

* A NaN operand is passed on quietly, the first one of two; an invalid operation gives
  `Format.invalid`.
* `compare?`: the order of two patterns, `none` when one is a NaN; zeros of both signs are equal.
* `Integral.round`: to a whole number by one of four rules; `truncate?` to an integer.
-/

namespace WasmDebugger.Ieee

/-- Where a number with a fractional part goes. -/
inductive Rounding where
  | up
  | down
  | towardZero
  | nearestEven
  deriving DecidableEq, Repr

/-- The integer square root, found bit by bit below `2 ^ bits`. -/
def isqrtBelow (n : Nat) : Nat → Nat → Nat
  | 0, root => root
  | bits + 1, root =>
    let wider := root + Nat.pow 2 bits
    isqrtBelow n bits (if wider * wider ≤ n then wider else root)

def isqrt (n : Nat) : Nat := isqrtBelow n (n.log2 / 2 + 1) 0

/-- A significand with its sign as an integer, brought down to a common exponent. -/
def aligned (negative : Bool) (significand : Nat) (exponent common : Int) : Int :=
  let magnitude : Int := (significand * Nat.pow 2 (exponent - common).toNat : Nat)
  if negative then -magnitude else magnitude

/-- Order of two data; a NaN is in no order with anything. -/
def Datum.compare? : Datum → Datum → Option Ordering
  | .nan _ _, _ => none
  | _, .nan _ _ => none
  | .infinite a, .infinite b => some (if a = b then .eq else if a then .lt else .gt)
  | .infinite a, .finite _ _ _ => some (if a then .lt else .gt)
  | .finite _ _ _, .infinite b => some (if b then .gt else .lt)
  | .finite s m e, .finite s' m' e' =>
    let common := min e e'
    some (compare (aligned s m e common) (aligned s' m' e' common))

/-- The part of a datum before the binary point, as a signed integer; `none` for a NaN or an
infinity. -/
def Datum.truncate? : Datum → Option Int
  | .finite s m e =>
    let (n, d) := scale m 1 e
    let magnitude : Int := (n / d : Nat)
    some (if s then -magnitude else magnitude)
  | _ => none

namespace Format

variable (f : Format)

def compare? (a b : Nat) : Option Ordering := (f.decode a).compare? (f.decode b)

/-! ## Sign bit -/

def abs (a : Nat) : Nat := a % f.signPlace

def neg (a : Nat) : Nat := if f.negative a then a - f.signPlace else a + f.signPlace

def copysign (a b : Nat) : Nat := f.signed (f.negative b) (f.abs a)

/-! ## Sums, products and quotients -/

def add (a b : Nat) : Nat :=
  match f.decode a, f.decode b with
  | .nan s p, _ => f.quietNan s p
  | _, .nan s p => f.quietNan s p
  | .infinite s, .infinite s' => if s = s' then f.infinity s else f.invalid
  | .infinite s, .finite _ _ _ => f.infinity s
  | .finite _ _ _, .infinite s => f.infinity s
  | .finite s m e, .finite s' m' e' =>
    let common := min e e'
    let sum := aligned s m e common + aligned s' m' e' common
    if sum = 0 then f.signed (s && s') 0 else f.roundScaled (sum < 0) sum.natAbs common

/-- A NaN on the right is passed on with its own sign. -/
def sub (a b : Nat) : Nat :=
  match f.decode b with
  | .nan _ _ => f.add a b
  | _ => f.add a (f.neg b)

def mul (a b : Nat) : Nat :=
  match f.decode a, f.decode b with
  | .nan s p, _ => f.quietNan s p
  | _, .nan s p => f.quietNan s p
  | .infinite s, .infinite s' => f.infinity (s != s')
  | .infinite s, .finite s' m _ => if m = 0 then f.invalid else f.infinity (s != s')
  | .finite s m _, .infinite s' => if m = 0 then f.invalid else f.infinity (s != s')
  | .finite s m e, .finite s' m' e' => f.roundScaled (s != s') (m * m') (e + e')

def div (a b : Nat) : Nat :=
  match f.decode a, f.decode b with
  | .nan s p, _ => f.quietNan s p
  | _, .nan s p => f.quietNan s p
  | .infinite _, .infinite _ => f.invalid
  | .infinite s, .finite s' _ _ => f.infinity (s != s')
  | .finite s _ _, .infinite s' => f.signed (s != s') 0
  | .finite s m e, .finite s' m' e' =>
    if m' = 0 then if m = 0 then f.invalid else f.infinity (s != s')
    else
      let (n, d) := scale m m' (e - e')
      f.roundQuotient (s != s') n d

/-- The root of the significand is taken to twice the width of the format and a remainder is
kept as half a unit below that, which decides every rounding. -/
def sqrt (a : Nat) : Nat :=
  match f.decode a with
  | .nan s p => f.quietNan s p
  | .infinite s => if s then f.invalid else f.infinity false
  | .finite s m e =>
    if m = 0 then f.signed s 0
    else if s then f.invalid
    else
      let shift := 2 * (f.fractionBits + 2) + (e % 2).toNat
      let n := m * Nat.pow 2 shift
      let root := isqrt n
      let sticky := if root * root = n then 0 else 1
      f.roundScaled false (2 * root + sticky) ((e - shift) / 2 - 1)

/-- The smaller operand, a negative zero counting as smaller than a positive one. -/
def minimum (a b : Nat) : Nat :=
  match f.compare? a b with
  | none => f.add a b
  | some .lt => a
  | some .gt => b
  | some .eq => if f.negative a then a else b

def maximum (a b : Nat) : Nat :=
  match f.compare? a b with
  | none => f.add a b
  | some .gt => a
  | some .lt => b
  | some .eq => if f.negative a then b else a

/-! ## Whole numbers and other formats -/

/-- The whole number a datum goes to, with the sign kept even when it is zero. -/
def roundToIntegral (rule : Rounding) (a : Nat) : Nat :=
  match f.decode a with
  | .nan s p => f.quietNan s p
  | .infinite s => f.infinity s
  | .finite s m e =>
    let (n, d) := scale m 1 e
    let away := n / d + (if n % d = 0 then 0 else 1)
    let whole := match rule with
      | .towardZero => n / d
      | .up => if s then n / d else away
      | .down => if s then away else n / d
      | .nearestEven => divNearestEven n d
    f.roundQuotient s whole 1

def ofInt (n : Int) : Nat := f.roundQuotient (n < 0) n.natAbs 1

/-- The same number in another format. -/
def convert (source target : Format) (a : Nat) : Nat :=
  match source.decode a with
  | .nan s p => source.passNan target s p
  | .infinite s => target.infinity s
  | .finite s m e => target.roundScaled s m e

/-- The integer before the binary point, if it lies between the bounds (the upper one
excluded). -/
def truncate? (lower upper : Int) (a : Nat) : Option Int :=
  (f.decode a).truncate?.filter fun n => lower ≤ n && n < upper

end Format

end WasmDebugger.Ieee
