import WasmDebugger.Module
import WasmDebugger.Nesting

/-!
# Assembling a module

A builder is called for one part of a module after the other and answers with its index. A call
that is refused (`BuildError`) leaves a builder behind too.

* Signatures are interned: an equal one is not added twice.
* Imported functions come first, so that their indices are the lowest.
* `Builder.perform`: what a call answers and does.
* `Builder.finish`: hands out the module and starts over.
-/

namespace WasmDebugger

inductive BuildError where
  | importAfterDefinition
  | malformedBody (cause : NestingError)
  | initializerType
  | secondMemory
  deriving DecidableEq, Repr

def BuildError.message : BuildError → String
  | .importAfterDefinition => "imports must be declared before defined functions"
  | .malformedBody cause => "malformed function body: " ++ cause.message
  | .initializerType => "global initializer type mismatch"
  | .secondMemory => "a module has at most one memory"

namespace Module

/-- The index of a signature, which is added if it is new. -/
def addType (m : Module) (t : FuncType) : UInt32 × Module :=
  match m.types.findIdx? (· = t) with
  | some i => (i.toUInt32, m)
  | none => (m.types.size.toUInt32, { m with types := m.types.push t })

private def pushFunction (m : Module) (f : Function) : UInt32 × Module :=
  (m.functions.size.toUInt32, { m with functions := m.functions.push f })

def addGlobal (m : Module) (t : ValueType) (isMutable : Bool) (init : Value) :
    Except BuildError UInt32 × Module :=
  if init.type = t then
    (.ok m.globals.size.toUInt32,
      { m with globals := m.globals.push ⟨t, isMutable, .init (.const init)⟩ })
  else (.error .initializerType, m)

def addMemory (m : Module) (limits : Limits) : Except BuildError UInt32 × Module :=
  if m.memories.isEmpty then (.ok 0, { m with memories := m.memories.push ⟨limits, none⟩ })
  else (.error .secondMemory, m)

def addTable (m : Module) (limits : Limits) : UInt32 × Module :=
  (m.tables.size.toUInt32, { m with tables := m.tables.push ⟨limits, none⟩ })

/-- Bytes for the first memory. -/
def addData (m : Module) (offset : UInt32) (bytes : List UInt8) : Module :=
  { m with data := m.data ++ [⟨0, .const (.i32 offset.toBitVec), bytes⟩] }

/-- Function indices for the first table. -/
def addElements (m : Module) (offset : UInt32) (functions : List UInt32) : Module :=
  { m with elements := m.elements ++ [⟨0, .const (.i32 offset.toBitVec), functions⟩] }

def addExport (m : Module) (e : Export) : Module := { m with exports := m.exports ++ [e] }

def setStart (m : Module) (f : UInt32) : Module := { m with start := some f }

def addCustom (m : Module) (c : CustomSection) : Module :=
  { m with customSections := m.customSections ++ [c] }

end Module

structure Builder where
  module : Module := {}
  /-- Set by the first function that is defined, for good. -/
  sawDefined : Bool := false

inductive BuilderCall where
  | addType (t : FuncType)
  | importFunction (name : ImportName) (t : FuncType)
  | addFunction (t : FuncType) (locals : List ValueType) (body : List Instr)
  | addGlobal (t : ValueType) (isMutable : Bool) (init : Value)
  | addMemory (limits : Limits)
  | addTable (limits : Limits)
  | addData (offset : UInt32) (bytes : List UInt8)
  | addElements (offset : UInt32) (functions : List UInt32)
  | addExport (e : Export)
  | setStart (f : UInt32)
  | addCustom (c : CustomSection)
  | finish

inductive BuilderAnswer where
  | done
  | index (i : UInt32)
  | finished (m : Module)

namespace Builder

def importFunction (b : Builder) (name : ImportName) (t : FuncType) :
    Except BuildError UInt32 × Builder :=
  if b.sawDefined then (.error .importAfterDefinition, b)
  else
    let (type, m) := b.module.addType t
    let (index, m) := m.pushFunction (.imported type name)
    (.ok index, { b with module := m })

/-- Adds a function whose body is given without the `end` that closes it. The signature has been
interned by the time the body is looked at. -/
def addFunction (b : Builder) (t : FuncType) (locals : List ValueType) (body : List Instr) :
    Except BuildError UInt32 × Builder :=
  let (type, m) := b.module.addType t
  match Nesting.resolve (body ++ [.blockEnd]) with
  | .error e => (.error (.malformedBody e), { b with module := m })
  | .ok code =>
    let (index, m) := m.pushFunction (.defined type locals code.toArray)
    (.ok index, { module := m, sawDefined := true })

/-- The module is handed out, so that its parts are gone. The number of the start function is no
part that could be taken away. -/
def finish (b : Builder) : Module × Builder :=
  (b.module, { b with module := { start := b.module.start } })

def perform (b : Builder) : BuilderCall → Except BuildError BuilderAnswer × Builder
  | .addType t =>
    let r := b.module.addType t
    (.ok (.index r.1), { b with module := r.2 })
  | .importFunction name t =>
    let r := b.importFunction name t
    (r.1.map .index, r.2)
  | .addFunction t locals body =>
    let r := b.addFunction t locals body
    (r.1.map .index, r.2)
  | .addGlobal t isMutable init =>
    let r := b.module.addGlobal t isMutable init
    (r.1.map .index, { b with module := r.2 })
  | .addMemory limits =>
    let r := b.module.addMemory limits
    (r.1.map .index, { b with module := r.2 })
  | .addTable limits =>
    let r := b.module.addTable limits
    (.ok (.index r.1), { b with module := r.2 })
  | .addData offset bytes => (.ok .done, { b with module := b.module.addData offset bytes })
  | .addElements offset functions =>
    (.ok .done, { b with module := b.module.addElements offset functions })
  | .addExport e => (.ok .done, { b with module := b.module.addExport e })
  | .setStart f => (.ok .done, { b with module := b.module.setStart f })
  | .addCustom c => (.ok .done, { b with module := b.module.addCustom c })
  | .finish => (.ok (.finished b.finish.1), b.finish.2)

/-- What a call answers. -/
def reply (b : Builder) (c : BuilderCall) : Except BuildError BuilderAnswer := (b.perform c).1

/-- The builder after a call, also after one that is refused. -/
def after (b : Builder) (c : BuilderCall) : Builder := (b.perform c).2

end Builder

namespace Instr

/-- The instruction of an operation without immediates. -/
def plain? : Opcode → Option Instr
  | .unreachable => some .unreachable
  | .nop => some .nop
  | .elseThen => some (.elseThen none)
  | .blockEnd => some .blockEnd
  | .ret => some .ret
  | .drop => some .drop
  | .select => some .select
  | .memorySize => some .memorySize
  | .memoryGrow => some .memoryGrow
  | .numeric op => some (.numeric op)
  | _ => none

/-- The instruction of an operation that takes one depth or index. -/
def indexed? (op : Opcode) (n : UInt32) : Option Instr :=
  match op with
  | .br => some (.br n)
  | .brIf => some (.brIf n)
  | .call => some (.call n)
  | .callIndirect => some (.callIndirect n)
  | .localGet => some (.localGet n)
  | .localSet => some (.localSet n)
  | .localTee => some (.localTee n)
  | .globalGet => some (.globalGet n)
  | .globalSet => some (.globalSet n)
  | _ => none

/-- An access with the alignment that fits its width. -/
def loadAt (op : LoadOp) (offset : UInt32) : Instr := .load op ⟨naturalAlign op.bytes, offset⟩

def storeAt (op : StoreOp) (offset : UInt32) : Instr :=
  .store op ⟨naturalAlign op.bytes, offset⟩

end Instr

end WasmDebugger
