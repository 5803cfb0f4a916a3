import WasmDebugger.Machine

/-!
# Instantiation

A machine is made from a module by computing its globals, laying out memories and tables and
copying the segments into them, one after the other.

* `Machine.instantiate?`: the machine before any function is entered, or the first thing that
  does not fit (`InitError`).
-/

namespace WasmDebugger

open Numeral

inductive InitError where
  | noModule
  | unknownGlobal (index : UInt32)
  | globalType (index : Nat)
  | memoryTooLarge
  | dataMemory (segment : Nat)
  | dataOffset (segment : Nat)
  | dataBounds (segment : Nat)
  | elementTable (segment : Nat)
  | elementOffset (segment : Nat)
  | elementBounds (segment : Nat)
  deriving DecidableEq, Repr

def InitError.message : InitError → String
  | .noModule => "no module"
  | .unknownGlobal index => "unknown global " ++ decimal index.toNat ++ " in initializer"
  | .globalType index => "initializer of global " ++ decimal index ++ " has the wrong type"
  | .memoryTooLarge => "memory too large"
  | .dataMemory i => "data segment " ++ decimal i ++ " refers to a missing memory"
  | .dataOffset i => "data segment " ++ decimal i ++ " offset is not i32"
  | .dataBounds i => "data segment " ++ decimal i ++ " does not fit in memory"
  | .elementTable i => "element segment " ++ decimal i ++ " refers to a missing table"
  | .elementOffset i => "element segment " ++ decimal i ++ " offset is not i32"
  | .elementBounds i => "element segment " ++ decimal i ++ " does not fit in table"

namespace Machine

/-- The value of a constant expression when these globals are there. -/
def evalInit (globals : Array Value) : InitExpr → Except InitError Value
  | .const v => .ok v
  | .globalGet index =>
    match globals[index.toNat]? with
    | some v => .ok v
    | none => .error (.unknownGlobal index)

/-- Imported globals start at zero. The others see the globals before them. -/
def initGlobal (globals : Array Value) (g : Global) : Except InitError (Array Value) :=
  match g.source with
  | .imported _ => .ok (globals.push (Value.zero g.type))
  | .init e =>
    match evalInit globals e with
    | .error e => .error e
    | .ok v => if v.type = g.type then .ok (globals.push v) else .error (.globalType globals.size)

def initMemory (hostPages : Nat) (s : Storage) : Except InitError LinearMemory :=
  if s.limits.min.toNat ≤ hostPages then .ok (LinearMemory.ofLimits s.limits hostPages)
  else .error .memoryTooLarge

/-- The address that a segment starts at. -/
def segmentBase (globals : Array Value) (e : InitExpr) (mismatch : InitError) :
    Except InitError Nat :=
  match evalInit globals e with
  | .error e => .error e
  | .ok v =>
    match v.asInt? .w32 with
    | some b => .ok b.toNat
    | none => .error mismatch

/-- Copies a data segment, the `i`-th, into its memory. -/
def initData (globals : Array Value) (memories : Array LinearMemory) :
    DataSegment × Nat → Except InitError (Array LinearMemory)
  | (s, i) =>
    if s.memory.toNat < memories.size then
      match segmentBase globals s.offset (.dataOffset i) with
      | .error e => .error e
      | .ok base =>
        if memories[s.memory.toNat]?.any fun m => m.inBounds base s.bytes.length then
          .ok (memories.modify s.memory.toNat fun m =>
            { m with bytes := LinearMemory.writeBytes m.bytes base s.bytes })
        else .error (.dataBounds i)
    else .error (.dataMemory i)

/-- Puts entries into consecutive slots of a table. -/
def fillSlots (table : Array (Option UInt32)) (base : Nat) : List UInt32 → Array (Option UInt32)
  | [] => table
  | f :: rest => fillSlots (table.setIfInBounds base (some f)) (base + 1) rest

/-- Copies an element segment, the `i`-th, into its table. -/
def initElements (globals : Array Value) (tables : Array (Array (Option UInt32))) :
    ElementSegment × Nat → Except InitError (Array (Array (Option UInt32)))
  | (s, i) =>
    if s.table.toNat < tables.size then
      match segmentBase globals s.offset (.elementOffset i) with
      | .error e => .error e
      | .ok base =>
        if tables[s.table.toNat]?.any fun t => base + s.functions.length ≤ t.size then
          .ok (tables.modify s.table.toNat fun t => fillSlots t base s.functions)
        else .error (.elementBounds i)
    else .error (.elementTable i)

def initTable (s : Storage) : Array (Option UInt32) := Array.replicate s.limits.min.toNat none

def instantiate? (module : Module) (limits : Limitation) : Except InitError Machine := do
  let globals ← module.globals.toList.foldlM initGlobal #[]
  let memories ← module.memories.toList.mapM (initMemory limits.maxMemoryPages)
  let tables := module.tables.map initTable
  let memories ← module.data.zipIdx.foldlM (initData globals) memories.toArray
  let tables ← module.elements.zipIdx.foldlM (initElements globals) tables
  pure
    { ip := ⟨0, 0⟩
      stack := .empty limits.maxValueStack
      frames := []
      globals := globals
      memories := memories
      tables := tables }

end Machine

end WasmDebugger
