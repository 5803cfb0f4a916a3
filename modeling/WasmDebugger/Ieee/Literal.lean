import WasmDebugger.Numeral
import WasmDebugger.Ieee.Format

/-!
# Floating-point literals

The texts that name a floating-point number, read straight into a bit pattern.

* After optional white space and a sign: decimal digits with an optional point and an `e`
  exponent; `0x` with hexadecimal digits, an optional point and a `p` exponent; `inf` or
  `infinity`; `nan`, alone or with a payload in parentheses. Letters may be of either case.
* `Format.ofLiteral?` reads a whole text. The value is rounded once, from the exact number, but
  for one bit in the subnormal range (`Format.dropGuard`).
-/

namespace WasmDebugger.Ieee

open Numeral

/-- A number as it is spelled: `significand * radix ^ exponent`, with `places` digits. -/
structure Spelled where
  significand : Nat
  exponent : Int
  places : Nat
  deriving DecidableEq, Repr

/-- An exponent part: the mark, an optional sign and decimal digits. No text is exponent zero. -/
def exponentPart? (isMark : Char → Bool) : List Char → Option Int
  | [] => some 0
  | c :: rest =>
    if isMark c then
      let (negative, digits) := splitSign rest
      (natural? 10 digits).map fun n => if negative then -(n : Int) else n
    else none

/-- Digits with an optional point, then an exponent part to the end. `pointPlace` is the power
of the exponent's base that one digit stands for. -/
def spelled? (radix pointPlace : Nat) (isMark : Char → Bool) (text : List Char) :
    Option Spelled := do
  let (whole, rest) := spanDigits radix text
  let (part, rest) := match rest with
    | '.' :: rest => spanDigits radix rest
    | rest => ([], rest)
  if whole.isEmpty && part.isEmpty then none
  else
    let exponent ← exponentPart? isMark rest
    some ⟨ofDigits radix (whole ++ part), exponent - part.length * pointPlace,
      (whole ++ part).length * pointPlace⟩

/-- The payload between the parentheses of a NaN: letters, digits and underscores. It counts as
a number when it is one from end to end, and as zero otherwise. -/
def nanPayload? (text : List Char) : Option Nat :=
  match text.reverse with
  | ')' :: reversed =>
    let body := reversed.reverse
    if body.all fun c => (digit? 36 c).isSome || c = '_' then
      match leading? .marked body with
      | some ⟨_, magnitude, []⟩ => some (min magnitude (UInt64.size - 1))
      | _ => some 0
    else none
  | _ => none

namespace Format

variable (f : Format)

/-- The least exponent of a leading bit at which numbers have full precision. -/
def minNormal : Int := f.minExponent + f.fractionBits

/-- Takes the bit that follows the full precision out of a positive quotient below the normal
range, so that a literal which needs one bit more than the precision is rounded there as if it
ended a bit earlier. Down to `deepest` that holds for any leading exponent. -/
def dropGuard (deepest : Int) (num den : Nat) : Nat × Nat :=
  let lead := leadingExponent num den
  let place := lead - f.fractionBits - 1
  if lead < f.minNormal && deepest ≤ place then
    let (n, d) := scale num den (-place)
    if n / d % 2 = 1 then scale (n - d) d place else (num, den)
  else (num, den)

/-- The lowest place at which a bit of a literal in base `base` can be left out. Decimal digits
are read to a quarter of the least positive number, and what lies further down counts as it is. -/
def deepestGuard (base : Nat) : Int :=
  if base = 2 then f.minExponent - f.fractionBits - 2 else f.minExponent - 2

/-- The pattern of a literal in base `base` whose exact value is `num / den`. -/
def ofExact (base : Nat) (negative : Bool) (num den : Nat) : Nat :=
  let (n, d) := if num = 0 then (0, 1) else f.dropGuard (f.deepestGuard base) num den
  f.roundQuotient negative n d

/-- A spelled number in base `base`, rounded. Numbers whose leading digit lies further out than
any of the format's are infinite or zero at once. -/
def ofSpelled (base : Nat) (negative : Bool) (x : Spelled) : Nat :=
  let reach : Int := Nat.pow 2 f.exponentBits
  if x.significand = 0 || x.exponent + x.places < -reach then f.signed negative 0
  else if reach < x.exponent + x.significand.log2 / 4 then f.infinity negative
  else if 0 ≤ x.exponent then
    f.ofExact base negative (x.significand * Nat.pow base x.exponent.toNat) 1
  else f.ofExact base negative x.significand (Nat.pow base (-x.exponent).toNat)

/-- A literal without its sign. -/
def ofUnsignedLiteral? (negative : Bool) (text : List Char) : Option Nat :=
  let lower := text.map Char.toLower
  if lower = ['i', 'n', 'f'] || lower = ['i', 'n', 'f', 'i', 'n', 'i', 't', 'y'] then
    some (f.infinity negative)
  else if lower = ['n', 'a', 'n'] then some (f.quietNan negative 0)
  else
    match lower with
    | 'n' :: 'a' :: 'n' :: '(' :: rest => (nanPayload? rest).map (f.quietNan negative ·)
    | '0' :: 'x' :: rest => (spelled? 16 4 (· = 'p') rest).map (f.ofSpelled 2 negative ·)
    | text => (spelled? 10 1 (· = 'e') text).map (f.ofSpelled 10 negative ·)

/-- The pattern a whole text names. -/
def ofLiteral? (text : List Char) : Option Nat :=
  let (negative, text) := splitSign (text.dropWhile Octets.isSpace)
  f.ofUnsignedLiteral? negative text

end Format

end WasmDebugger.Ieee
