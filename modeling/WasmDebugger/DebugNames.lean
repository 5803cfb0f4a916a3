import WasmDebugger.Binary.Module

/-!
# Debug names

A module can carry names for itself, its functions and their locals, in a custom section called
`name` made of subsections.

* `DebugNames.ofModule`: the names of a module. A section that is not well formed is left out as
  a whole, and the reason is returned beside the empty names.
* Of several names for one thing the last one counts.
-/

namespace WasmDebugger

/-- Names as they were recorded, the last one first. -/
structure DebugNames where
  module : Option String := none
  functions : List (UInt32 × String) := []
  locals : List ((UInt32 × UInt32) × String) := []
  deriving DecidableEq, Repr

namespace DebugNames

def isEmpty (n : DebugNames) : Bool := n.module.isNone && n.functions.isEmpty && n.locals.isEmpty

def function? (n : DebugNames) (f : UInt32) : Option String := n.functions.lookup f

def local? (n : DebugNames) (f l : UInt32) : Option String := n.locals.lookup (f, l)

/-! ## Reading -/

open Decoder

def sectionName : String := "name"

def entry : Decoder (UInt32 × String) := do
  let index ← u32
  let name ← name
  pure (index, name)

/-- The named locals of one function. -/
def localEntries : Decoder (List ((UInt32 × UInt32) × String)) := do
  let f ← u32
  let entries ← vector entry
  pure (entries.map fun (l, name) => ((f, l), name))

/-- The content of a subsection; ids past the known ones say nothing. -/
def readSubsection (n : DebugNames) : UInt8 → Decoder DebugNames
  | 0 => do
    let name ← name
    pure { n with module := some name }
  | 1 => do
    let entries ← vector entry
    pure { n with functions := entries.reverse ++ n.functions }
  | 2 => do
    let entries ← vector localEntries
    pure { n with locals := entries.flatten.reverse ++ n.locals }
  | _ => do
    let _ ← remainder
    pure n

def subsection (n : DebugNames) : Decoder DebugNames := do
  let id ← byte
  let size ← u32
  within size.toNat .nameSubsectionSize (n.readSubsection id)

/-- At most `k` subsections, as long as bytes are left. -/
def subsections (n : DebugNames) : Nat → Decoder DebugNames
  | 0 => pure n
  | k + 1 => do
    if ← atEnd then pure n
    else
      let n ← subsection n
      subsections n k

def ofPayload? (payload : List UInt8) : Except LoadError DebugNames :=
  (subsections {} payload.length).run? payload

/-- The names in the first section for them, and what was wrong with it. -/
def ofModule (m : Module) : DebugNames × Option LoadError :=
  match m.custom? sectionName with
  | none => ({}, none)
  | some payload =>
    match ofPayload? payload with
    | .ok names => (names, none)
    | .error e => ({}, some e)

/-- The line that reports a section left out. -/
def warning (e : LoadError) : String :=
  "[DEBUG] ignoring malformed name section: " ++ e.text ++ "\n"

end DebugNames

end WasmDebugger
