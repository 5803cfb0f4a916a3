/-!
# Values

The four kinds of number a machine holds.

* `ValueType`, `Width`: the kinds, and the two widths that an integer or a float can have.
* `Value`: a bit pattern with its kind. Two values are equal when kind and bits are, so a NaN
  equals itself and the two zeros differ.
* `Value.int`, `Value.float` with `Value.asInt?`, `Value.asFloat?`: the same for a width that is
  an argument, as instructions have it.
-/

namespace WasmDebugger

inductive Width where
  | w32
  | w64
  deriving DecidableEq, Repr

abbrev Width.bits : Width → Nat
  | .w32 => 32
  | .w64 => 64

/-- The widths in order. -/
def Width.all : List Width := [.w32, .w64]

inductive ValueType where
  | i32
  | i64
  | f32
  | f64
  deriving DecidableEq, Repr, Inhabited

namespace ValueType

def name : ValueType → String
  | .i32 => "i32"
  | .i64 => "i64"
  | .f32 => "f32"
  | .f64 => "f64"

def all : List ValueType := [.i32, .i64, .f32, .f64]

def int : Width → ValueType
  | .w32 => .i32
  | .w64 => .i64

def float : Width → ValueType
  | .w32 => .f32
  | .w64 => .f64

def width : ValueType → Width
  | .i32 | .f32 => .w32
  | .i64 | .f64 => .w64

end ValueType

inductive Value where
  | i32 (bits : BitVec 32)
  | i64 (bits : BitVec 64)
  | f32 (bits : BitVec 32)
  | f64 (bits : BitVec 64)
  deriving DecidableEq, Repr, Inhabited

namespace Value

def type : Value → ValueType
  | .i32 _ => .i32
  | .i64 _ => .i64
  | .f32 _ => .f32
  | .f64 _ => .f64

/-- The bit pattern as a number. -/
def toNat : Value → Nat
  | .i32 b | .f32 b => b.toNat
  | .i64 b | .f64 b => b.toNat

/-- The value of a type with the low bits of a number as its pattern. -/
def ofNat : ValueType → Nat → Value
  | .i32, n => .i32 (BitVec.ofNat 32 n)
  | .i64, n => .i64 (BitVec.ofNat 64 n)
  | .f32, n => .f32 (BitVec.ofNat 32 n)
  | .f64, n => .f64 (BitVec.ofNat 64 n)

/-- The zero of a type. -/
def zero (t : ValueType) : Value := ofNat t 0

def ofBool (b : Bool) : Value := .i32 (if b then 1 else 0)

/-! ## Integers and floats of a given width -/

def int : (w : Width) → BitVec w.bits → Value
  | .w32, b => .i32 b
  | .w64, b => .i64 b

def float : (w : Width) → BitVec w.bits → Value
  | .w32, b => .f32 b
  | .w64, b => .f64 b

def asInt? : (w : Width) → Value → Option (BitVec w.bits)
  | .w32, .i32 b => some b
  | .w64, .i64 b => some b
  | _, _ => none

def asFloat? : (w : Width) → Value → Option (BitVec w.bits)
  | .w32, .f32 b => some b
  | .w64, .f64 b => some b
  | _, _ => none

@[simp] theorem asInt?_int (w : Width) (b : BitVec w.bits) : asInt? w (int w b) = some b := by
  cases w <;> rfl

@[simp] theorem asFloat?_float (w : Width) (b : BitVec w.bits) :
    asFloat? w (float w b) = some b := by
  cases w <;> rfl

theorem asInt?_eq_some_iff {w : Width} {v : Value} {b : BitVec w.bits} :
    asInt? w v = some b ↔ v = int w b := by
  cases w <;> cases v <;> simp [asInt?, int]

@[simp] theorem type_int (w : Width) (b : BitVec w.bits) : (int w b).type = .int w := by
  cases w <;> rfl

@[simp] theorem type_float (w : Width) (b : BitVec w.bits) : (float w b).type = .float w := by
  cases w <;> rfl

@[simp] theorem type_ofNat (t : ValueType) (n : Nat) : (ofNat t n).type = t := by
  cases t <;> rfl

@[simp] theorem type_zero (t : ValueType) : (zero t).type = t := type_ofNat t 0

end Value

end WasmDebugger
