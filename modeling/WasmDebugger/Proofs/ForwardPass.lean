import WasmDebugger.DebugNames
import WasmDebugger.Binary.Reader

/-!
# Reading on past an error

Decoders stop at the first error. Here the same bytes are read in one forward pass of a `Reader`
that goes on behind an error: loops end because they ask whether something has failed, and what
they have gathered stays, an item that was being read included.

* `Trace`: a reader and how it stood before each of its operations.
* `Pass`: a program that drives a reader. It has no value if a loop goes on for more rounds than
  there are bytes.
* `Pass.draft`: the pass over a module. `Pass.names`: the pass over a section for names.
-/

namespace WasmDebugger

/-- A reader in use, and how it stood before, the latest first. -/
structure Trace where
  reader : Reader
  earlier : List Reader := []

namespace Trace

def all (t : Trace) : List Reader := t.reader :: t.earlier

/-- The trace once the reader has been changed. -/
def step (t : Trace) (r : Reader) : Trace := ⟨r, t.all⟩

/-- What a pass has come to: its value, unless the reader failed on the way. -/
def result {α : Type} (t : Trace) (a : α) : Except LoadError α :=
  match t.reader.error with
  | none => .ok a
  | some e => .error e

end Trace

abbrev Pass (α : Type) : Type := StateT Trace Option α

namespace Pass

variable {α σ : Type}

/-! ## Operations of the reader -/

def act (op : Reader → α × Reader) : Pass α := fun t =>
  some ((op t.reader).1, t.step (op t.reader).2)

/-- Something about the reader, which is left as it is. -/
def look (f : Reader → α) : Pass α := fun t => some (f t.reader, t)

def fail (cause : LoadCause) : Pass Unit := act fun r => ((), r.fail cause)

def require (condition : Bool) (cause : LoadCause) : Pass Unit :=
  if condition then pure () else fail cause

/-- Records an error and goes on with some value. -/
def giveUp (cause : LoadCause) (a : α) : Pass α := do
  fail cause
  pure a

/-- Goes on only if nothing has failed. -/
def unlessFailed (a : α) (p : Pass α) : Pass α := do
  if ← look (·.error.isSome) then pure a else p

def byte : Pass UInt8 := act (·.read Decoder.byte 0)

def bytes (size : Nat) : Pass (List UInt8) := act (·.read (Decoder.bytes size) [])

def remainder : Pass (List UInt8) := do
  let left ← look (·.remaining)
  bytes left

/-! ## Integers -/

def fixed : Nat → Pass Nat
  | 0 => pure 0
  | size + 1 => do
    let low ← byte
    let high ← fixed size
    pure (low.toNat + 256 * high)

def unsignedGroups : Nat → Pass Nat
  | 0 => do
    let b ← byte
    if b.toNat < 16 then pure b.toNat else giveUp .integerTooLong 0
  | more + 1 => do
    let b ← byte
    if b.toNat < 128 then pure b.toNat
    else
      let high ← unsignedGroups more
      pure (b.toNat - 128 + 128 * high)

def signedGroups (lastBits : Nat) : Nat → Pass Int
  | 0 => do
    let b ← byte
    let half := Nat.pow 2 (lastBits - 1)
    if b.toNat < half || (128 - half ≤ b.toNat && b.toNat < 128) then
      pure (Decoder.signedGroup b)
    else giveUp .integerTooLarge 0
  | more + 1 => do
    let b ← byte
    if b.toNat < 128 then pure (Decoder.signedGroup b)
    else
      let high ← signedGroups lastBits more
      pure ((b.toNat : Int) - 128 + 128 * high)

/-- A number that breaks off counts as zero. -/
def u32 : Pass UInt32 := do
  let n ← unsignedGroups 4
  unlessFailed 0 (pure n.toUInt32)

def s32 : Pass Int := do
  let n ← signedGroups 4 4
  unlessFailed 0 (pure n)

def s64 : Pass Int := do
  let n ← signedGroups 1 9
  unlessFailed 0 (pure n)

/-! ## Repetition -/

def count : Pass Nat := do
  let n ← u32
  let left ← look (·.remaining)
  if left < n.toNat then giveUp .countTooLarge 0 else pure n.toNat

/-- At most `n` items, as long as nothing has failed. An item that is given up is left out. -/
def times (item : Pass (Option α)) : Nat → Pass (List α)
  | 0 => pure []
  | n + 1 => unlessFailed [] do
    let first ← item
    let rest ← times item n
    pure (first.toList ++ rest)

def vector (item : Pass (Option α)) : Pass (List α) := do
  let n ← count
  times item n

def name : Pass String := do
  let size ← count
  let text ← bytes size
  pure (Octets.ofBytes text)

/-- Rounds while bytes are left and nothing has failed, fewer than `n`. -/
def rounds (step : σ → Pass σ) (s : σ) : Nat → Pass σ
  | 0 => fun _ => none
  | n + 1 => unlessFailed s do
    if ← look (·.atLimit) then pure s
    else
      let s ← step s
      rounds step s n

/-- Rounds to the limit, no more of them than bytes. -/
def toLimit (step : σ → Pass σ) (s : σ) : Pass σ := do
  let left ← look (·.remaining)
  rounds step s (left + 1)

/-! ## Windows -/

/-- Back to the limit before, from the one in force, which must have been reached. -/
def leave (outer : Nat) (mismatch : LoadCause) : Pass Unit := do
  let ended ← look (·.atLimit)
  require ended mismatch
  act fun r => ((), r.restoreLimit outer)

/-- Reads under a limit. There is no value if the limit cannot be set. -/
def within (size : Nat) (mismatch : LoadCause) (inner : Pass α) : Pass (Option α) := do
  let outer ← act (·.pushLimit size)
  unlessFailed none do
    let a ← inner
    leave outer mismatch
    pure (some a)

/-! ## Instructions -/

def valueType : Pass ValueType := do
  let b ← byte
  match ValueType.ofByte? b with
  | some t => pure t
  | none => giveUp .valueType .i32

def blockType : Pass (Option ValueType) := do
  let b ← byte
  if b = emptyBlockByte then pure none
  else
    match ValueType.ofByte? b with
    | some t => pure (some t)
    | none => giveUp .blockType none

def reservedZero : Pass Unit := do
  let b ← byte
  require (b = 0) .zeroByte

def constant : ValueType → Pass Value
  | .i32 => do let n ← s32; pure (.i32 (BitVec.ofInt 32 n))
  | .i64 => do let n ← s64; pure (.i64 (BitVec.ofInt 64 n))
  | .f32 => do let n ← fixed 4; pure (.f32 (BitVec.ofNat 32 n))
  | .f64 => do let n ← fixed 8; pure (.f64 (BitVec.ofNat 64 n))

def memArg : Pass MemArg := do
  let align ← u32
  let offset ← u32
  pure ⟨align, offset⟩

def labelTable : Pass (List UInt32) := do
  let depths ← vector (some <$> u32)
  let otherwise ← u32
  pure (depths ++ [otherwise])

def operands : Opcode → Pass Instr
  | .unreachable => pure .unreachable
  | .nop => pure .nop
  | .block => do let r ← blockType; pure (.block r none)
  | .loop => do let r ← blockType; pure (.loop r none)
  | .ifThen => do let r ← blockType; pure (.ifThen r none none)
  | .elseThen => pure (.elseThen none)
  | .blockEnd => pure .blockEnd
  | .br => do let n ← u32; pure (.br n)
  | .brIf => do let n ← u32; pure (.brIf n)
  | .brTable => do let depths ← labelTable; pure (.brTable depths)
  | .ret => pure .ret
  | .call => do let n ← u32; pure (.call n)
  | .callIndirect => do
    let n ← u32
    reservedZero
    pure (.callIndirect n)
  | .drop => pure .drop
  | .select => pure .select
  | .localGet => do let n ← u32; pure (.localGet n)
  | .localSet => do let n ← u32; pure (.localSet n)
  | .localTee => do let n ← u32; pure (.localTee n)
  | .globalGet => do let n ← u32; pure (.globalGet n)
  | .globalSet => do let n ← u32; pure (.globalSet n)
  | .load op => do let arg ← memArg; pure (.load op arg)
  | .store op => do let arg ← memArg; pure (.store op arg)
  | .memorySize => do reservedZero; pure .memorySize
  | .memoryGrow => do reservedZero; pure .memoryGrow
  | .const t => do let v ← constant t; pure (.const v)
  | .numeric op => pure (.numeric op)

def instr : Pass Instr := do
  let b ← byte
  match Opcode.ofByte? b with
  | some op => operands op
  | none => giveUp (.illegalOpcode b) .unreachable

def initExpr : Pass InitExpr := do
  let b ← byte
  let e ← match Opcode.ofByte? b with
    | some (.const t) => do let v ← constant t; pure (InitExpr.const v)
    | some .globalGet => do let n ← u32; pure (InitExpr.globalGet n)
    | _ => giveUp .constantRequired (.const (.i32 0))
  let last ← byte
  require (Opcode.ofByte? last = some .blockEnd) .constantEnd
  pure e

/-! ## Entries of sections -/

/-- A signature without the byte in front is left out. -/
def funcType : Pass (Option FuncType) := do
  let b ← byte
  if b = Decoder.funcTypeByte then
    let params ← vector (some <$> valueType)
    let results ← vector (some <$> valueType)
    pure (some ⟨params, results⟩)
  else giveUp .functionType none

def limits : Pass Limits := do
  let flags ← byte
  if flags ≤ 1 then
    let min ← u32
    if flags = 0 then pure ⟨min, none⟩
    else
      let max ← u32
      require (min ≤ max) .limitsOrder
      pure ⟨min, some max⟩
  else giveUp .limitsFlags ⟨0, none⟩

def memoryLimits : Pass Limits := do
  let l ← limits
  require (l.min.toNat ≤ maxPages && l.max.all (·.toNat ≤ maxPages)) .memoryTooLarge
  pure l

def tableLimits : Pass Limits := do
  let b ← byte
  require (b = Decoder.funcRefByte) .tableType
  limits

def mutability : Pass Bool := do
  let flag ← byte
  require (flag ≤ 1) .mutability
  pure (flag = 1)

def typeIndex (known : Nat) : Pass UInt32 := do
  let t ← u32
  require (t.toNat < known) (.unknownType t)
  pure t

/-- An import of no kind is left out. -/
def importEntry (knownTypes : Nat) : Pass (Option Decoder.Import) := do
  let module ← name
  let field ← name
  let name : ImportName := ⟨module, field⟩
  match ← byte with
  | 0 => do let t ← typeIndex knownTypes; pure (some (.function (.imported t name)))
  | 1 => do let l ← tableLimits; pure (some (.table ⟨l, some name⟩))
  | 2 => do let l ← memoryLimits; pure (some (.memory ⟨l, some name⟩))
  | 3 => do
    let t ← valueType
    let isMutable ← mutability
    pure (some (.global ⟨t, isMutable, .imported name⟩))
  | _ => giveUp .importKind none

def exportKind : Pass (Option ExternalKind) := do
  match ← byte with
  | 0 => pure (some .function)
  | 1 => pure (some .table)
  | 2 => pure (some .memory)
  | 3 => pure (some .global)
  | _ => giveUp .exportKind none

/-- An export of no kind is left out. -/
def exportEntry : Pass (Option Export) := do
  let name ← name
  match ← exportKind with
  | none => pure none
  | some kind =>
    let index ← u32
    pure (some ⟨name, kind, index⟩)

def globalEntry : Pass Global := do
  let t ← valueType
  let isMutable ← mutability
  let init ← initExpr
  pure ⟨t, isMutable, .init init⟩

/-- A segment for another table is left out. -/
def elementSegment : Pass (Option ElementSegment) := do
  let table ← u32
  if table = 0 then
    let offset ← initExpr
    let functions ← vector (some <$> u32)
    pure (some ⟨table, offset, functions⟩)
  else giveUp .elementTable none

/-- A segment for another memory is left out. -/
def dataSegment : Pass (Option DataSegment) := do
  let memory ← u32
  if memory = 0 then
    let offset ← initExpr
    let size ← count
    let content ← bytes size
    pure (some ⟨memory, offset, content⟩)
  else giveUp .dataMemory none

/-! ## Function bodies -/

/-- Groups of locals. One that has no room is left out, one of a wrong type is not. -/
def localGroups (room : Nat) : Nat → Pass (List ValueType)
  | 0 => pure []
  | groups + 1 => unlessFailed [] do
    let n ← u32
    if n.toNat ≤ room then
      let t ← valueType
      let rest ← localGroups (room - n.toNat) groups
      pure (List.replicate n.toNat t ++ rest)
    else giveUp .tooManyLocals []

/-- One instruction more. -/
def pushInstr (code : List Instr) : Pass (List Instr) := do
  let i ← instr
  pure (code ++ [i])

def body : Pass Body := do
  let groups ← count
  let locals ← localGroups maxLocals groups
  let code ← toLimit pushInstr []
  require (code.getLast? = some .blockEnd) .bodyEnd
  unlessFailed ⟨locals, code⟩ <|
    match Nesting.resolve code with
    | .ok resolved => pure ⟨locals, resolved⟩
    | .error e => giveUp (.nesting e) ⟨locals, code⟩

def sizedBody : Pass (Option Body) := do
  let size ← u32
  within size.toNat .sectionSize body

def functionBodies (declared : Nat) : Pass (List Body) := do
  let n ← count
  require (n = declared) .bodyCount
  times sizedBody n

/-! ## Modules -/

def custom : Pass (Option CustomSection) := do
  let name ← name
  let payload ← remainder
  unlessFailed none (pure (some ⟨name, payload⟩))

/-- A section's payload. Of every section but the custom ones there is one at most, so a draft has
nothing yet where its content goes. -/
def readSection (d : Draft) : UInt8 → Pass Draft
  | 0 => do
    let c ← custom
    pure { d with customSections := d.customSections ++ c.toList }
  | 1 => do
    let types ← vector funcType
    pure { d with types := types.toArray }
  | 2 => do
    let imports ← vector (importEntry d.types.size)
    pure (imports.foldl Draft.addImport d)
  | 3 => do
    let declared ← vector (some <$> typeIndex d.types.size)
    pure { d with declared := declared }
  | 4 => do
    let tables ← vector (some <$> tableLimits)
    pure { d with tables := d.tables ++ (tables.map (⟨·, none⟩)).toArray }
  | 5 => do
    let memories ← vector (some <$> memoryLimits)
    let all := d.memories ++ (memories.map (⟨·, none⟩)).toArray
    require (all.size ≤ 1) .multipleMemories
    pure { d with memories := all }
  | 6 => do
    let globals ← vector (some <$> globalEntry)
    pure { d with globals := d.globals ++ globals.toArray }
  | 7 => do
    let exports ← vector exportEntry
    pure { d with exports := exports }
  | 8 => do
    let f ← u32
    pure { d with start := some f }
  | 9 => do
    let elements ← vector elementSegment
    pure { d with elements := elements }
  | 10 => do
    let bodies ← functionBodies d.declared.length
    pure { d with bodies := bodies }
  | 11 => do
    let data ← vector dataSegment
    pure { d with data := data }
  | _ => pure d

def header : Pass Unit := do
  let m ← bytes 4
  require (m = Decoder.magic) .magic
  let v ← fixed 4
  require (v = Decoder.version) .version

/-- One section behind others: the highest id so far and the draft, before and after. -/
def oneSection (s : UInt8 × Draft) : Pass (UInt8 × Draft) := do
  let id ← byte
  let size ← u32
  require (id ≤ Draft.maxSectionId) (.unknownSection id)
  require (id = 0 || s.1 < id) .sectionOrder
  unlessFailed s do
    let d ← within size.toNat .sectionSize (readSection s.2 id)
    pure (if id = 0 then s.1 else id, d.getD s.2)

/-- **The pass over a module**, up to the checks that need all sections. What was read before a
failure is still there. -/
def draft : Pass Draft := do
  header
  let (_, d) ← toLimit oneSection (0, {})
  require (d.declared.length = d.bodies.length) .bodyCount
  match d.invalidIndex? with
  | some cause => giveUp cause d
  | none => pure d

/-! ## Names -/

def entry : Pass (UInt32 × String) := do
  let index ← u32
  let name ← name
  pure (index, name)

def localEntries : Pass (List ((UInt32 × UInt32) × String)) := do
  let f ← u32
  let entries ← vector (some <$> entry)
  pure (entries.map fun (l, name) => ((f, l), name))

def readSubsection (n : DebugNames) : UInt8 → Pass DebugNames
  | 0 => do
    let name ← name
    pure { n with module := some name }
  | 1 => do
    let entries ← vector (some <$> entry)
    pure { n with functions := entries.reverse ++ n.functions }
  | 2 => do
    let entries ← vector (some <$> localEntries)
    pure { n with locals := entries.flatten.reverse ++ n.locals }
  | _ => do
    let _ ← remainder
    pure n

def subsection (n : DebugNames) : Pass DebugNames := do
  let id ← byte
  let size ← u32
  let named ← within size.toNat .nameSubsectionSize (readSubsection n id)
  pure (named.getD n)

/-- **The pass over a section for names.** -/
def names : Pass DebugNames := toLimit subsection {}

/-- Runs a pass over a sequence of bytes. -/
def run? (p : Pass α) (input : List UInt8) : Option (α × Trace) := p ⟨.ofBytes input, []⟩

end Pass

end WasmDebugger
