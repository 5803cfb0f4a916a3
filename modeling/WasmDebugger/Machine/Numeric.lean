import WasmDebugger.Machine

/-!
# Numeric instructions

What a numeric operation makes of the operands on top of the stack. Operands of another kind, or
too few of them, are a type mismatch, and a result replaces what it was made of.
-/

namespace WasmDebugger

/-! ## Operands -/

namespace OperandStack

variable {α : Type}

/-- Replaces the top operand, as `read` sees it, by a result. -/
def unary (s : OperandStack) (read : Value → Option α) (f : α → Except ArithmeticError Value) :
    Except Fault OperandStack :=
  match (s.peek? 0).bind read with
  | none => .error .typeMismatch
  | some a =>
    match f a with
    | .ok v => .ok (s.replace 1 v)
    | .error e => .error (.ofArithmetic e)

/-- Replaces the top two operands by a result. The top one is on the right. -/
def binary (s : OperandStack) (read : Value → Option α) (f : α → α → Except ArithmeticError Value) :
    Except Fault OperandStack :=
  match (s.peek? 1).bind read, (s.peek? 0).bind read with
  | some a, some b =>
    match f a b with
    | .ok v => .ok (s.replace 2 v)
    | .error e => .error (.ofArithmetic e)
  | _, _ => .error .typeMismatch

end OperandStack

/-! ## Rules -/

def Width.format : Width → Ieee.Format
  | .w32 => Ieee.binary32
  | .w64 => Ieee.binary64

variable {n : Nat}

def IntRelation.holds : IntRelation → BitVec n → BitVec n → Bool
  | .eq, a, b => a = b
  | .ne, a, b => a ≠ b
  | .ltS, a, b => a.slt b
  | .ltU, a, b => a.ult b
  | .gtS, a, b => b.slt a
  | .gtU, a, b => b.ult a
  | .leS, a, b => a.sle b
  | .leU, a, b => a.ule b
  | .geS, a, b => b.sle a
  | .geU, a, b => b.ule a

/-- Nothing but difference holds of a NaN. -/
def FloatRelation.holds (r : FloatRelation) (f : Ieee.Format) (a b : Nat) : Bool :=
  match r, f.compare? a b with
  | .ne, none => true
  | _, none => false
  | .eq, some o => o == .eq
  | .ne, some o => o != .eq
  | .lt, some o => o == .lt
  | .gt, some o => o == .gt
  | .le, some o => o != .gt
  | .ge, some o => o != .lt

def IntUnary.apply : IntUnary → BitVec n → BitVec n
  | .clz, a => a.clz
  | .ctz, a => a.ctz
  | .popcnt, a => a.cpop

def IntBinary.apply : IntBinary → BitVec n → BitVec n → Except ArithmeticError (BitVec n)
  | .add, a, b => .ok (a + b)
  | .sub, a, b => .ok (a - b)
  | .mul, a, b => .ok (a * b)
  | .divS, a, b => Word.divS a b
  | .divU, a, b => Word.divU a b
  | .remS, a, b => Word.remS a b
  | .remU, a, b => Word.remU a b
  | .and, a, b => .ok (a &&& b)
  | .or, a, b => .ok (a ||| b)
  | .xor, a, b => .ok (a ^^^ b)
  | .shl, a, b => .ok (Word.shl a b)
  | .shrS, a, b => .ok (Word.shrS a b)
  | .shrU, a, b => .ok (Word.shrU a b)
  | .rotl, a, b => .ok (Word.rotl a b)
  | .rotr, a, b => .ok (Word.rotr a b)

def FloatUnary.apply : FloatUnary → Ieee.Format → Nat → Nat
  | .abs, f, a => f.abs a
  | .neg, f, a => f.neg a
  | .ceil, f, a => f.roundToIntegral .up a
  | .floor, f, a => f.roundToIntegral .down a
  | .trunc, f, a => f.roundToIntegral .towardZero a
  | .nearest, f, a => f.roundToIntegral .nearestEven a
  | .sqrt, f, a => f.sqrt a

def FloatBinary.apply : FloatBinary → Ieee.Format → Nat → Nat → Nat
  | .add, f, a, b => f.add a b
  | .sub, f, a, b => f.sub a b
  | .mul, f, a, b => f.mul a b
  | .div, f, a, b => f.div a b
  | .min, f, a, b => f.minimum a b
  | .max, f, a, b => f.maximum a b
  | .copysign, f, a, b => f.copysign a b

/-- A word read as a signed or as an unsigned number. -/
def intOf (isSigned : Bool) (b : BitVec n) : Int := if isSigned then b.toInt else b.toNat

def NumericOp.run (op : NumericOp) (s : OperandStack) : Except Fault OperandStack :=
  let floatValue (w : Width) (bits : Nat) : Value := .float w (BitVec.ofNat w.bits bits)
  match op with
  | .eqz w => s.unary (Value.asInt? w) fun a => .ok (.ofBool (a = 0))
  | .intCompare w r => s.binary (Value.asInt? w) fun a b => .ok (.ofBool (r.holds a b))
  | .floatCompare w r =>
    s.binary (Value.asFloat? w) fun a b => .ok (.ofBool (r.holds w.format a.toNat b.toNat))
  | .intUnary w op => s.unary (Value.asInt? w) fun a => .ok (.int w (op.apply a))
  | .intBinary w op => s.binary (Value.asInt? w) fun a b => (op.apply a b).map (.int w)
  | .floatUnary w op =>
    s.unary (Value.asFloat? w) fun a => .ok (floatValue w (op.apply w.format a.toNat))
  | .floatBinary w op =>
    s.binary (Value.asFloat? w) fun a b =>
      .ok (floatValue w (op.apply w.format a.toNat b.toNat))
  | .wrap => s.unary (Value.asInt? .w64) fun a => .ok (.i32 (a.setWidth 32))
  | .extend isSigned => s.unary (Value.asInt? .w32) fun a =>
    .ok (.i64 (if isSigned then a.signExtend 64 else a.setWidth 64))
  | .truncate target source isSigned => s.unary (Value.asFloat? source) fun a =>
    (Word.truncate target.bits isSigned source.format a.toNat).map (.int target)
  | .convert target source isSigned => s.unary (Value.asInt? source) fun a =>
    .ok (floatValue target (target.format.ofInt (intOf isSigned a)))
  | .demote => s.unary (Value.asFloat? .w64) fun a =>
    .ok (floatValue .w32 (Ieee.Format.convert Ieee.binary64 Ieee.binary32 a.toNat))
  | .promote => s.unary (Value.asFloat? .w32) fun a =>
    .ok (floatValue .w64 (Ieee.Format.convert Ieee.binary32 Ieee.binary64 a.toNat))
  | .reinterpretFloat w => s.unary (Value.asFloat? w) fun a => .ok (.int w a)
  | .reinterpretInt w => s.unary (Value.asInt? w) fun a => .ok (.float w a)
  | .extendLow part => s.unary (Value.asInt? part.width) fun a =>
    .ok (.int part.width (Word.signExtendLow part.bits a))

end WasmDebugger
