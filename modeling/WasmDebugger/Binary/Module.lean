import WasmDebugger.Binary.Section

/-!
# Binary modules

A module in bytes is a header and then sections to the end. Custom sections may stand anywhere;
the others come in the order of their ids and at most once.

* `Module.ofBytes?`: the module that a sequence of bytes denotes.
* `Draft.invalidIndex?`: the checks that need all sections, in the order in which they are made.
-/

namespace WasmDebugger

namespace Decoder

def magic : List UInt8 := [0x00, 0x61, 0x73, 0x6D]

def version : Nat := 1

def header : Decoder Unit := do
  let m ← bytes 4
  require (m = magic) .magic
  let v ← fixed 4
  require (v = version) .version

/-- One section behind those up to id `last`: the highest id so far, and the draft with the
section's content. -/
def oneSection (last : UInt8) (d : Draft) : Decoder (UInt8 × Draft) := do
  let id ← byte
  let size ← u32
  require (id ≤ Draft.maxSectionId) (.unknownSection id)
  require (id = 0 || last < id) .sectionOrder
  let d ← within size.toNat .sectionSize (d.readSection id)
  pure (if id = 0 then last else id, d)

/-- At most `n` sections, as long as bytes are left. -/
def sections (last : UInt8) (d : Draft) : Nat → Decoder Draft
  | 0 => pure d
  | n + 1 => do
    if ← atEnd then pure d
    else
      let (last, d) ← oneSection last d
      sections last d n

end Decoder

namespace Draft

/-- The number of functions, imported ones included. -/
def functionCount (d : Draft) : Nat := d.imported.size + d.declared.length

def exportIsKnown (d : Draft) (e : Export) : Bool :=
  e.index.toNat < match e.kind with
    | .function => d.functionCount
    | .table => d.tables.size
    | .memory => d.memories.size
    | .global => d.globals.size

/-- The first index that refers to nothing. -/
def invalidIndex? (d : Draft) : Option LoadCause :=
  match d.exports.find? fun e => !d.exportIsKnown e with
  | some e => some (.unknownExport e.name)
  | none =>
    if d.start.any fun f => d.functionCount ≤ f.toNat then some .unknownStart
    else if !d.elements.isEmpty && d.tables.isEmpty then some .elementWithoutTable
    else if d.elements.any fun s => s.functions.any fun f => d.functionCount ≤ f.toNat then
      some .unknownElement
    else if !d.data.isEmpty && d.memories.isEmpty then some .dataWithoutMemory
    else none

end Draft

namespace Decoder

/-- A module that fills the window. There are no more sections than bytes. -/
def module : Decoder Module := do
  header
  let d ← fun c => sections 0 {} c.rest.length c
  require (d.declared.length = d.bodies.length) .bodyCount
  match d.invalidIndex? with
  | some cause => fail cause
  | none => pure d.toModule

end Decoder

def Module.ofBytes? (input : List UInt8) : Except LoadError Module := Decoder.module.run? input

end WasmDebugger
