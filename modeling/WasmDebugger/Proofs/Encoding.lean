import WasmDebugger.Binary.Module

/-!
# The binary format, written

The standard encoding of a module. The program only reads modules; what it reads is measured
against this.

* `Encode.unsigned`, `Encode.signed`: integers in groups of seven bits, low groups first and no
  more of them than needed.
* `Encode.instr`, `Encode.body`, `Encode.importEntry` and so on: the parts, one function to a
  decoder.
* `Module.sections`: the sections that are not empty, in the order of their ids, and then the
  custom sections. `Module.encode` puts the header in front.

Targets of blocks are not written: they follow from the nesting.
-/

namespace WasmDebugger

open Decoder (Import)

/-! ## Who provides what -/

def Function.name? : Function → Option ImportName
  | .imported _ name => some name
  | .defined _ _ _ => none

def Global.name? (g : Global) : Option ImportName :=
  match g.source with
  | .imported name => some name
  | .init _ => none

def Decoder.Import.name? : Import → Option ImportName
  | .function f => f.name?
  | .table t => t.source
  | .memory s => s.source
  | .global g => g.name?

namespace Encode

variable {α : Type}

/-! ## Integers, vectors and names -/

def unsigned (n : Nat) : List UInt8 :=
  if n < 128 then [n.toUInt8] else (n % 128 + 128).toUInt8 :: unsigned (n / 128)

/-- Bit 6 of the last group is the sign. -/
def signed (i : Int) : List UInt8 :=
  if -64 ≤ i ∧ i < 64 then [(i % 128).toNat.toUInt8]
  else ((i % 128).toNat + 128).toUInt8 :: signed (i / 128)
termination_by i.natAbs

/-- So many bytes, the low ones first. -/
def fixed : Nat → Nat → List UInt8
  | 0, _ => []
  | size + 1, n => (n % 256).toUInt8 :: fixed size (n / 256)

def u32 (n : UInt32) : List UInt8 := unsigned n.toNat

/-- Bytes behind their number. -/
def sized (content : List UInt8) : List UInt8 := unsigned content.length ++ content

def vector (item : α → List UInt8) (items : List α) : List UInt8 :=
  unsigned items.length ++ items.flatMap item

def name (text : String) : List UInt8 := sized (Octets.toBytes text)

/-! ## Instructions -/

def valueType : ValueType → UInt8
  | .i32 => 0x7F
  | .i64 => 0x7E
  | .f32 => 0x7D
  | .f64 => 0x7C

def blockType : Option ValueType → UInt8
  | none => 0x40
  | some t => valueType t

def constant : Value → List UInt8
  | .i32 b => signed b.toInt
  | .i64 b => signed b.toInt
  | .f32 b => fixed 4 b.toNat
  | .f64 b => fixed 8 b.toNat

/-- The last depth stands behind the vector of the others. -/
def labelTable (depths : List UInt32) : List UInt8 :=
  vector u32 depths.dropLast ++ u32 (depths.getLastD 0)

/-- What follows the byte of the operation. -/
def immediates : Instr → List UInt8
  | .block r _ | .loop r _ | .ifThen r _ _ => [blockType r]
  | .br n | .brIf n | .call n => u32 n
  | .localGet n | .localSet n | .localTee n | .globalGet n | .globalSet n => u32 n
  | .brTable depths => labelTable depths
  | .callIndirect t => u32 t ++ [0]
  | .load _ arg | .store _ arg => u32 arg.align ++ u32 arg.offset
  | .memorySize | .memoryGrow => [0]
  | .const v => constant v
  | _ => []

def instr (i : Instr) : List UInt8 := i.opcode.byte :: immediates i

def initExpr : InitExpr → List UInt8
  | .const v => instr (.const v) ++ instr .blockEnd
  | .globalGet n => instr (.globalGet n) ++ instr .blockEnd

/-! ## Entries of sections -/

def funcType (t : FuncType) : List UInt8 :=
  0x60 :: (vector ([valueType ·]) t.params ++ vector ([valueType ·]) t.results)

def limits (l : Limits) : List UInt8 :=
  match l.max with
  | none => 0 :: u32 l.min
  | some max => 1 :: (u32 l.min ++ u32 max)

def tableLimits (l : Limits) : List UInt8 := 0x70 :: limits l

def globalType (t : ValueType) (isMutable : Bool) : List UInt8 :=
  [valueType t, if isMutable then 1 else 0]

def importName (n : ImportName) : List UInt8 := name n.module ++ name n.field

/-- What is provided, behind its name. -/
def importEntry (i : Import) : List UInt8 :=
  i.name?.elim [] importName ++
    match i with
    | .function f => 0 :: u32 f.type
    | .table t => 1 :: tableLimits t.limits
    | .memory s => 2 :: limits s.limits
    | .global g => 3 :: globalType g.type g.isMutable

def exportKind : ExternalKind → UInt8
  | .function => 0
  | .table => 1
  | .memory => 2
  | .global => 3

def exportEntry (e : Export) : List UInt8 := name e.name ++ exportKind e.kind :: u32 e.index

/-- An imported global has no initializer. -/
def initializer : GlobalSource → List UInt8
  | .imported _ => []
  | .init e => initExpr e

def globalEntry (g : Global) : List UInt8 := globalType g.type g.isMutable ++ initializer g.source

def elementSegment (s : ElementSegment) : List UInt8 :=
  u32 s.table ++ initExpr s.offset ++ vector u32 s.functions

def dataSegment (s : DataSegment) : List UInt8 :=
  u32 s.memory ++ initExpr s.offset ++ sized s.bytes

def localGroup (group : ValueType × Nat) : List UInt8 := unsigned group.2 ++ [valueType group.1]

def body (b : Body) : List UInt8 :=
  vector localGroup (runLengths b.locals) ++ b.code.flatMap instr

def sizedBody (b : Body) : List UInt8 := sized (body b)

def custom (c : CustomSection) : List UInt8 := name c.name ++ c.payload

end Encode

/-! ## The parts of a module by section -/

def Function.body? : Function → Option Body
  | .imported _ _ => none
  | .defined _ locals code => some ⟨locals, code.toList⟩

def Storage.isImported (s : Storage) : Bool := s.source.isSome

def Global.isImported (g : Global) : Bool := g.name?.isSome

namespace Module

/-- What the host provides: functions, tables, memories and globals. -/
def imports (m : Module) : List Import :=
  (m.functions.toList.filter Function.isImported).map .function ++
    (m.tables.toList.filter Storage.isImported).map .table ++
    (m.memories.toList.filter Storage.isImported).map .memory ++
    (m.globals.toList.filter Global.isImported).map .global

/-- The signatures of the functions that have bodies. -/
def declared (m : Module) : List UInt32 :=
  (m.functions.toList.filter fun f => !f.isImported).map Function.type

def bodies (m : Module) : List Body := m.functions.toList.filterMap Function.body?

/-- The limits of the tables or memories that the module declares itself. -/
def ownLimits (storage : Array Storage) : List Limits :=
  (storage.toList.filter fun s => !s.isImported).map Storage.limits

def ownGlobals (m : Module) : List Global := m.globals.toList.filter fun g => !g.isImported

/-- A section with a vector, left out when that is empty. -/
def filled {α : Type} (id : UInt8) (item : α → List UInt8) (items : List α) :
    List (UInt8 × List UInt8) :=
  if items.isEmpty then [] else [(id, Encode.vector item items)]

/-- The sections by id and content. -/
def sections (m : Module) : List (UInt8 × List UInt8) :=
  filled 1 Encode.funcType m.types.toList ++
    (filled 2 Encode.importEntry m.imports ++
    (filled 3 Encode.u32 m.declared ++
    (filled 4 Encode.tableLimits (ownLimits m.tables) ++
    (filled 5 Encode.limits (ownLimits m.memories) ++
    (filled 6 Encode.globalEntry m.ownGlobals ++
    (filled 7 Encode.exportEntry m.exports ++
    (m.start.toList.map (fun f => (8, Encode.u32 f)) ++
    (filled 9 Encode.elementSegment m.elements ++
    (filled 10 Encode.sizedBody m.bodies ++
    (filled 11 Encode.dataSegment m.data ++
    m.customSections.map fun c => (0, Encode.custom c)))))))))))

/-- A section's id, its size and its content. -/
def sectionBytes (s : UInt8 × List UInt8) : List UInt8 := s.1 :: Encode.sized s.2

/-- **The module in bytes**, behind the magic number and the version. -/
def encode (m : Module) : List UInt8 :=
  [0x00, 0x61, 0x73, 0x6D, 0x01, 0x00, 0x00, 0x00] ++ m.sections.flatMap sectionBytes

end Module

end WasmDebugger
