import WasmDebugger.Numeral
import WasmDebugger.Opcode
import WasmDebugger.Ieee.Decimal

/-!
# Instructions

An operation with its immediates.

* `Instr`: what a function body is a sequence of. Openers of a block carry the position of the
  instruction that ends them, once it is known.
* `Instr.text`: one line of disassembly.
-/

namespace WasmDebugger

/-- The static part of a memory address: the exponent of the promised alignment and an offset. -/
structure MemArg where
  align : UInt32
  offset : UInt32
  deriving DecidableEq, Repr

inductive Instr where
  | unreachable
  | nop
  | block (result : Option ValueType) (endAt : Option Nat)
  | loop (result : Option ValueType) (endAt : Option Nat)
  | ifThen (result : Option ValueType) (endAt elseAt : Option Nat)
  | elseThen (endAt : Option Nat)
  | blockEnd
  | br (depth : UInt32)
  | brIf (depth : UInt32)
  /-- Branch depths by selector; the last is for every selector past the others. -/
  | brTable (depths : List UInt32)
  | ret
  | call (function : UInt32)
  | callIndirect (type : UInt32)
  | drop
  | select
  | localGet (index : UInt32)
  | localSet (index : UInt32)
  | localTee (index : UInt32)
  | globalGet (index : UInt32)
  | globalSet (index : UInt32)
  | load (op : LoadOp) (arg : MemArg)
  | store (op : StoreOp) (arg : MemArg)
  | memorySize
  | memoryGrow
  | const (value : Value)
  | numeric (op : NumericOp)
  deriving DecidableEq, Repr

instance : Inhabited Instr := ⟨.nop⟩

namespace Instr

open Numeral

def opcode : Instr → Opcode
  | .unreachable => .unreachable
  | .nop => .nop
  | .block _ _ => .block
  | .loop _ _ => .loop
  | .ifThen _ _ _ => .ifThen
  | .elseThen _ => .elseThen
  | .blockEnd => .blockEnd
  | .br _ => .br
  | .brIf _ => .brIf
  | .brTable _ => .brTable
  | .ret => .ret
  | .call _ => .call
  | .callIndirect _ => .callIndirect
  | .drop => .drop
  | .select => .select
  | .localGet _ => .localGet
  | .localSet _ => .localSet
  | .localTee _ => .localTee
  | .globalGet _ => .globalGet
  | .globalSet _ => .globalSet
  | .load op _ => .load op
  | .store op _ => .store op
  | .memorySize => .memorySize
  | .memoryGrow => .memoryGrow
  | .const v => .const v.type
  | .numeric op => .numeric op

private def index (n : UInt32) : String := " " ++ decimal n.toNat

private def result : Option ValueType → String
  | none => ""
  | some t => " (result " ++ t.name ++ ")"

/-- An offset of zero is left out; the alignment is shown in bytes. -/
private def memArg (arg : MemArg) : String :=
  (if arg.offset = 0 then "" else " offset=" ++ decimal arg.offset.toNat) ++
    " align=" ++ decimal (Nat.pow 2 (arg.align.toNat % 32))

/-- Significant digits of a float immediate. -/
def floatDigits : Nat := 6

private def constant : Value → String
  | .i32 b => " " ++ Numeral.signed b.toInt
  | .i64 b => " " ++ Numeral.signed b.toInt
  | .f32 b => " " ++ Ieee.binary32.toGeneral floatDigits b.toNat
  | .f64 b => " " ++ Ieee.binary64.toGeneral floatDigits b.toNat

def immediateText : Instr → String
  | .block r _ | .loop r _ | .ifThen r _ _ => result r
  | .br n | .brIf n | .call n => index n
  | .localGet n | .localSet n | .localTee n | .globalGet n | .globalSet n => index n
  | .brTable depths => String.join (depths.map index)
  | .callIndirect t => " (type " ++ decimal t.toNat ++ ")"
  | .load _ arg | .store _ arg => memArg arg
  | .const v => constant v
  | _ => ""

def text (i : Instr) : String := i.opcode.name ++ i.immediateText

end Instr

end WasmDebugger
