import WasmDebugger.Ieee.Arithmetic

/-!
# Integer words

Fixed-width integers are bit vectors; their sums, products and bit operations are the core
ones and wrap. This file holds what else the instructions need.

* `Word.divS`, `Word.divU`, `Word.remS`, `Word.remU`: division, which can fail (`ArithmeticError`).
* `Word.shl`, `Word.shrS`, `Word.shrU`, `Word.rotl`, `Word.rotr`: the count is taken modulo the
  width.
* `Word.signExtendLow`: a narrower two's-complement number in the low bits.
* `Word.truncate`: a float cut to an integer, if it lies in the range.
-/

namespace WasmDebugger

/-- Why an integer operation or a conversion to an integer has no result. -/
inductive ArithmeticError where
  | divisionByZero
  | signedOverflow
  | invalidConversion
  deriving DecidableEq, Repr

namespace Word

variable {w : Nat}

/-! ## Division -/

/-- The quotient rounded toward zero. Only the smallest number divided by minus one lies outside
the range. -/
def divS (a b : BitVec w) : Except ArithmeticError (BitVec w) :=
  if b = 0#w then .error .divisionByZero
  else if a = BitVec.intMin w && b = BitVec.allOnes w then .error .signedOverflow
  else .ok (a.sdiv b)

def divU (a b : BitVec w) : Except ArithmeticError (BitVec w) :=
  if b = 0#w then .error .divisionByZero else .ok (a / b)

/-- The remainder with the sign of the dividend. -/
def remS (a b : BitVec w) : Except ArithmeticError (BitVec w) :=
  if b = 0#w then .error .divisionByZero else .ok (a.srem b)

def remU (a b : BitVec w) : Except ArithmeticError (BitVec w) :=
  if b = 0#w then .error .divisionByZero else .ok (a % b)

/-! ## Shifts and rotations -/

/-- How far a shift by `count` goes. -/
def shiftCount (count : BitVec w) : Nat := count.toNat % w

def shl (a count : BitVec w) : BitVec w := a <<< shiftCount count
def shrS (a count : BitVec w) : BitVec w := a.sshiftRight (shiftCount count)
def shrU (a count : BitVec w) : BitVec w := a >>> shiftCount count
def rotl (a count : BitVec w) : BitVec w := a.rotateLeft (shiftCount count)
def rotr (a count : BitVec w) : BitVec w := a.rotateRight (shiftCount count)

/-! ## Narrow numbers -/

/-- The low `bits` bits read as a two's-complement number. -/
def signExtendLow (bits : Nat) (a : BitVec w) : BitVec w := (a.setWidth bits).signExtend w

/-! ## Integers from floats -/

/-- The integers that a word can hold: the lower bound and the upper one, which is excluded. -/
def range (w : Nat) (isSigned : Bool) : Int × Int :=
  if isSigned then (-(Nat.pow 2 (w - 1) : Int), Nat.pow 2 (w - 1)) else (0, Nat.pow 2 w)

/-- The integer before the binary point of a float pattern. -/
def truncate (w : Nat) (isSigned : Bool) (f : Ieee.Format) (bits : Nat) :
    Except ArithmeticError (BitVec w) :=
  let (lower, upper) := range w isSigned
  match f.truncate? lower upper bits with
  | some n => .ok (BitVec.ofInt w n)
  | none => .error .invalidConversion

end Word

end WasmDebugger
