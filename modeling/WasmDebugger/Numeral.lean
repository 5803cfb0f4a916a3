import WasmDebugger.Octets

/-!
# Numerals

Reading and writing natural numbers in a radix.

* `Numeral.natural?`: a whole text of digits, at least one.
* `Numeral.leading?`: the number at the front of a text, after white space and a sign, with the
  rest; this is how counts and addresses are typed.
* `Numeral.hex`: lowercase hexadecimal of a least width.
-/

namespace WasmDebugger.Numeral

/-! ## Digits -/

/-- The digit a character stands for; letters of either case are the digits from ten on. -/
def digit? (radix : Nat) (c : Char) : Option Nat :=
  let value? : Option Nat :=
    if '0' ≤ c && c ≤ '9' then some (c.toNat - '0'.toNat)
    else if 'a' ≤ c && c ≤ 'z' then some (c.toNat - 'a'.toNat + 10)
    else if 'A' ≤ c && c ≤ 'Z' then some (c.toNat - 'A'.toNat + 10)
    else none
  value?.filter (· < radix)

/-- The number a list of digits denotes, most significant digit first. -/
def ofDigits (radix : Nat) (digits : List Nat) : Nat :=
  digits.foldl (fun n d => n * radix + d) 0

/-- The digits at the front of a text, and what follows them. -/
def spanDigits (radix : Nat) : List Char → List Nat × List Char
  | [] => ([], [])
  | c :: rest =>
    match digit? radix c with
    | none => ([], c :: rest)
    | some d =>
      let (digits, rest) := spanDigits radix rest
      (d :: digits, rest)

/-- The number that a whole text denotes: one digit or more and nothing else. -/
def natural? (radix : Nat) (text : List Char) : Option Nat :=
  match spanDigits radix text with
  | (d :: digits, []) => some (ofDigits radix (d :: digits))
  | _ => none

/-! ## Numbers at the front of a text -/

/-- How the radix of a typed number is chosen. -/
inductive NumberStyle where
  /-- Decimal digits only. -/
  | decimal
  /-- A leading 0x means hexadecimal and any other leading zero octal. -/
  | marked
  deriving DecidableEq, Repr

/-- A number as read off the front of a text. -/
structure Leading where
  negative : Bool
  magnitude : Nat
  rest : List Char
  deriving DecidableEq, Repr

/-- The radix for a text that starts at its first digit, and the text from there on: a radix
mark counts only when a digit of that radix follows it. -/
def chooseRadix : NumberStyle → List Char → Nat × List Char
  | .decimal, text => (10, text)
  | .marked, '0' :: x :: d :: rest =>
    if (x = 'x' || x = 'X') && (digit? 16 d).isSome then (16, d :: rest)
    else (8, '0' :: x :: d :: rest)
  | .marked, '0' :: rest => (8, '0' :: rest)
  | .marked, text => (10, text)

/-- An optional sign at the front of a text. -/
def splitSign : List Char → Bool × List Char
  | '-' :: rest => (true, rest)
  | '+' :: rest => (false, rest)
  | text => (false, text)

/-- Reads a number after white space and an optional sign; `none` when no digit stands there. -/
def leading? (style : NumberStyle) (text : List Char) : Option Leading :=
  let (negative, text) := splitSign (text.dropWhile Octets.isSpace)
  let (radix, text) := chooseRadix style text
  match spanDigits radix text with
  | ([], _) => none
  | (digits, rest) => some ⟨negative, ofDigits radix digits, rest⟩

/-- Whether nothing is left of a text behind a number. A NUL ends a text early. -/
def isEnd : List Char → Bool
  | [] => true
  | c :: _ => c = '\x00'

namespace Leading

/-- The number modulo `2 ^ 64`, a magnitude past 64 bits giving the largest one whatever its
sign. -/
def toUnsigned (n : Leading) : UInt64 :=
  if UInt64.size ≤ n.magnitude then (UInt64.size - 1).toUInt64
  else if n.negative then 0 - n.magnitude.toUInt64 else n.magnitude.toUInt64

/-- The number clamped to the signed 64-bit range. -/
def toSigned (n : Leading) : Int :=
  if n.negative then max Int64.minValue.toInt (-(n.magnitude : Int))
  else min Int64.maxValue.toInt (n.magnitude : Int)

end Leading

/-! ## Writing -/

def padLeft (width : Nat) (text : String) : String :=
  String.ofList (List.replicate (width - text.length) '0') ++ text

def decimal (n : Nat) : String :=
  String.ofList (Nat.toDigits 10 n)

/-- Lowercase hexadecimal of at least `width` digits. -/
def hex (width n : Nat) : String :=
  padLeft width (String.ofList (Nat.toDigits 16 n))

/-- Decimal with a minus sign for negative numbers. -/
def signed (n : Int) : String :=
  if n < 0 then "-" ++ decimal n.natAbs else decimal n.natAbs

end WasmDebugger.Numeral
