import WasmDebugger.Module
import WasmDebugger.Binary.Decoder

/-!
# Decoding instructions

The binary form of value types, constant expressions and instructions.

* `Decoder.instr`: an operation's byte and the immediates that `Opcode.immediate` announces.
* `Decoder.initExpr`: one constant instruction and an `end`.
-/

namespace WasmDebugger

def ValueType.ofByte? : UInt8 → Option ValueType
  | 0x7F => some .i32
  | 0x7E => some .i64
  | 0x7D => some .f32
  | 0x7C => some .f64
  | _ => none

/-- The byte for a block without a result. -/
def emptyBlockByte : UInt8 := 0x40

namespace Decoder

def valueType : Decoder ValueType := do
  let b ← byte
  match ValueType.ofByte? b with
  | some t => pure t
  | none => fail .valueType

def blockType : Decoder (Option ValueType) := do
  let b ← byte
  if b = emptyBlockByte then pure none
  else
    match ValueType.ofByte? b with
    | some t => pure (some t)
    | none => fail .blockType

def reservedZero : Decoder Unit := do
  let b ← byte
  require (b = 0) .zeroByte

def constant : ValueType → Decoder Value
  | .i32 => do let n ← s32; pure (.i32 (BitVec.ofInt 32 n))
  | .i64 => do let n ← s64; pure (.i64 (BitVec.ofInt 64 n))
  | .f32 => do let n ← fixed 4; pure (.f32 (BitVec.ofNat 32 n))
  | .f64 => do let n ← fixed 8; pure (.f64 (BitVec.ofNat 64 n))

def memArg : Decoder MemArg := do
  let align ← u32
  let offset ← u32
  pure ⟨align, offset⟩

/-- The depths of a branch table, the one for all other selectors last. -/
def labelTable : Decoder (List UInt32) := do
  let depths ← vector u32
  let otherwise ← u32
  pure (depths ++ [otherwise])

/-- The immediates of an operation. -/
def operands : Opcode → Decoder Instr
  | .unreachable => pure .unreachable
  | .nop => pure .nop
  | .block => do let r ← blockType; pure (.block r none)
  | .loop => do let r ← blockType; pure (.loop r none)
  | .ifThen => do let r ← blockType; pure (.ifThen r none none)
  | .elseThen => pure (.elseThen none)
  | .blockEnd => pure .blockEnd
  | .br => do let n ← u32; pure (.br n)
  | .brIf => do let n ← u32; pure (.brIf n)
  | .brTable => do let depths ← labelTable; pure (.brTable depths)
  | .ret => pure .ret
  | .call => do let n ← u32; pure (.call n)
  | .callIndirect => do
    let n ← u32
    reservedZero
    pure (.callIndirect n)
  | .drop => pure .drop
  | .select => pure .select
  | .localGet => do let n ← u32; pure (.localGet n)
  | .localSet => do let n ← u32; pure (.localSet n)
  | .localTee => do let n ← u32; pure (.localTee n)
  | .globalGet => do let n ← u32; pure (.globalGet n)
  | .globalSet => do let n ← u32; pure (.globalSet n)
  | .load op => do let arg ← memArg; pure (.load op arg)
  | .store op => do let arg ← memArg; pure (.store op arg)
  | .memorySize => do reservedZero; pure .memorySize
  | .memoryGrow => do reservedZero; pure .memoryGrow
  | .const t => do let v ← constant t; pure (.const v)
  | .numeric op => pure (.numeric op)

def instr : Decoder Instr := do
  let b ← byte
  match Opcode.ofByte? b with
  | some op => operands op
  | none => fail (.illegalOpcode b)

/-- A literal or a global, closed by an `end`. -/
def initExpr : Decoder InitExpr := do
  let b ← byte
  let e ← match Opcode.ofByte? b with
    | some (.const t) => do let v ← constant t; pure (InitExpr.const v)
    | some .globalGet => do let n ← u32; pure (InitExpr.globalGet n)
    | _ => fail .constantRequired
  let last ← byte
  require (Opcode.ofByte? last = some .blockEnd) .constantEnd
  pure e

end Decoder

end WasmDebugger
