import WasmDebugger.Binary.Instr

/-!
# Sections

The parts of a binary module, one decoder to a kind of section.

* `Draft`: what has been read so far. Function signatures and function bodies stand in different
  sections, and `Draft.toModule` puts them together.
* `Draft.readSection`: decodes the payload of a section into a draft.
-/

namespace WasmDebugger

/-- The most locals that a function declares. -/
def maxLocals : Nat := 50000

/-- The declared locals and the instructions of a function, block targets filled in. -/
structure Body where
  locals : List ValueType
  code : List Instr
  deriving DecidableEq, Repr

/-- A module of which some sections have been read. `imported` holds the functions that the host
provides and `declared` the type indices of the others. -/
structure Draft where
  types : Array FuncType := #[]
  imported : Array Function := #[]
  declared : List UInt32 := []
  bodies : List Body := []
  tables : Array Storage := #[]
  memories : Array Storage := #[]
  globals : Array Global := #[]
  exports : List Export := []
  elements : List ElementSegment := []
  data : List DataSegment := []
  customSections : List CustomSection := []
  start : Option UInt32 := none
  deriving DecidableEq, Repr

def Draft.toModule (d : Draft) : Module where
  types := d.types
  functions := d.imported ++
    (List.zipWith (fun t b => Function.defined t b.locals b.code.toArray) d.declared d.bodies).toArray
  tables := d.tables
  memories := d.memories
  globals := d.globals
  exports := d.exports
  elements := d.elements
  data := d.data
  customSections := d.customSections
  start := d.start

namespace Decoder

/-! ## Types -/

/-- The byte in front of a signature. -/
def funcTypeByte : UInt8 := 0x60

/-- The byte for a table of function references. -/
def funcRefByte : UInt8 := 0x70

def funcType : Decoder FuncType := do
  let b ← byte
  require (b = funcTypeByte) .functionType
  let params ← vector valueType
  let results ← vector valueType
  pure ⟨params, results⟩

def limits : Decoder Limits := do
  let flags ← byte
  require (flags ≤ 1) .limitsFlags
  let min ← u32
  if flags = 0 then pure ⟨min, none⟩
  else
    let max ← u32
    require (min ≤ max) .limitsOrder
    pure ⟨min, some max⟩

def memoryLimits : Decoder Limits := do
  let l ← limits
  require (l.min.toNat ≤ maxPages && l.max.all (·.toNat ≤ maxPages)) .memoryTooLarge
  pure l

def tableLimits : Decoder Limits := do
  let b ← byte
  require (b = funcRefByte) .tableType
  limits

def mutability : Decoder Bool := do
  let flag ← byte
  require (flag ≤ 1) .mutability
  pure (flag = 1)

/-- The index of one of `known` signatures. -/
def typeIndex (known : Nat) : Decoder UInt32 := do
  let t ← u32
  require (t.toNat < known) (.unknownType t)
  pure t

/-! ## Imports and exports -/

/-- Something that the host provides. -/
inductive Import where
  | function (f : Function)
  | table (t : Storage)
  | memory (m : Storage)
  | global (g : Global)
  deriving DecidableEq, Repr

def importEntry (knownTypes : Nat) : Decoder Import := do
  let module ← name
  let field ← name
  let name : ImportName := ⟨module, field⟩
  match ← byte with
  | 0 => do let t ← typeIndex knownTypes; pure (.function (.imported t name))
  | 1 => do let l ← tableLimits; pure (.table ⟨l, some name⟩)
  | 2 => do let l ← memoryLimits; pure (.memory ⟨l, some name⟩)
  | 3 => do
    let t ← valueType
    let isMutable ← mutability
    pure (.global ⟨t, isMutable, .imported name⟩)
  | _ => fail .importKind

def exportKind : Decoder ExternalKind := do
  match ← byte with
  | 0 => pure .function
  | 1 => pure .table
  | 2 => pure .memory
  | 3 => pure .global
  | _ => fail .exportKind

def exportEntry : Decoder Export := do
  let name ← name
  let kind ← exportKind
  let index ← u32
  pure ⟨name, kind, index⟩

/-! ## Globals and segments -/

def globalEntry : Decoder Global := do
  let t ← valueType
  let isMutable ← mutability
  let init ← initExpr
  pure ⟨t, isMutable, .init init⟩

def elementSegment : Decoder ElementSegment := do
  let table ← u32
  require (table = 0) .elementTable
  let offset ← initExpr
  let functions ← vector u32
  pure ⟨table, offset, functions⟩

def dataSegment : Decoder DataSegment := do
  let memory ← u32
  require (memory = 0) .dataMemory
  let offset ← initExpr
  let size ← count
  let content ← bytes size
  pure ⟨memory, offset, content⟩

/-! ## Function bodies -/

/-- Groups of locals of one type; `room` more locals are allowed. -/
def localGroups (room : Nat) : Nat → Decoder (List ValueType)
  | 0 => pure []
  | groups + 1 => do
    let n ← u32
    require (n.toNat ≤ room) .tooManyLocals
    let t ← valueType
    let rest ← localGroups (room - n.toNat) groups
    pure (List.replicate n.toNat t ++ rest)

/-- A body that fills the window. -/
def body : Decoder Body := do
  let groups ← count
  let locals ← localGroups maxLocals groups
  let code ← untilEnd instr
  require (code.getLast? = some .blockEnd) .bodyEnd
  match Nesting.resolve code with
  | .ok resolved => pure ⟨locals, resolved⟩
  | .error e => fail (.nesting e)

def sizedBody : Decoder Body := do
  let size ← u32
  within size.toNat .sectionSize body

/-- As many bodies as there are functions declared. -/
def functionBodies (declared : Nat) : Decoder (List Body) := do
  let n ← count
  require (n = declared) .bodyCount
  times sizedBody n

/-! ## Whole sections -/

def custom : Decoder CustomSection := do
  let name ← name
  let payload ← remainder
  pure ⟨name, payload⟩

end Decoder

namespace Draft

open Decoder

def addImport (d : Draft) : Decoder.Import → Draft
  | .function f => { d with imported := d.imported.push f }
  | .table t => { d with tables := d.tables.push t }
  | .memory m => { d with memories := d.memories.push m }
  | .global g => { d with globals := d.globals.push g }

/-- The highest section id. -/
def maxSectionId : UInt8 := 11

/-- Decodes a section's payload, which fills the window. -/
def readSection (d : Draft) : UInt8 → Decoder Draft
  | 0 => do
    let c ← custom
    pure { d with customSections := d.customSections ++ [c] }
  | 1 => do
    let types ← vector funcType
    pure { d with types := types.toArray }
  | 2 => do
    let imports ← vector (importEntry d.types.size)
    pure (imports.foldl addImport d)
  | 3 => do
    let declared ← vector (typeIndex d.types.size)
    pure { d with declared := declared }
  | 4 => do
    let tables ← vector tableLimits
    pure { d with tables := d.tables ++ (tables.map (⟨·, none⟩)).toArray }
  | 5 => do
    let memories ← vector memoryLimits
    let all := d.memories ++ (memories.map (⟨·, none⟩)).toArray
    require (all.size ≤ 1) .multipleMemories
    pure { d with memories := all }
  | 6 => do
    let globals ← vector globalEntry
    pure { d with globals := d.globals ++ globals.toArray }
  | 7 => do
    let exports ← vector exportEntry
    pure { d with exports := exports }
  | 8 => do
    let f ← u32
    pure { d with start := some f }
  | 9 => do
    let elements ← vector elementSegment
    pure { d with elements := elements }
  | 10 => do
    let bodies ← functionBodies d.declared.length
    pure { d with bodies := bodies }
  | 11 => do
    let data ← vector dataSegment
    pure { d with data := data }
  | _ => pure d

end Draft

end WasmDebugger
