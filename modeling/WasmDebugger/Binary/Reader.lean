import WasmDebugger.Binary.Decoder

/-!
# Readers

A reader is driven from outside, one read at a time. It keeps going after a failure: the first
error stays, nothing more is consumed and every read gives an empty value.

Reads are decoders run on the window between the position and the limit (`Reader.read`).
-/

namespace WasmDebugger

structure Reader where
  input : List UInt8
  position : Nat
  limit : Nat
  error : Option LoadError
  deriving DecidableEq, Repr

namespace Reader

def ofBytes (input : List UInt8) : Reader := ⟨input, 0, input.length, none⟩

def remaining (r : Reader) : Nat := r.limit - r.position

def atLimit (r : Reader) : Bool := r.limit ≤ r.position

/-- The bytes that may still be read. -/
def window (r : Reader) : List UInt8 := (r.input.drop r.position).take r.remaining

/-- Records an error at the current position unless there is one already. -/
def fail (r : Reader) (cause : LoadCause) : Reader :=
  match r.error with
  | some _ => r
  | none => { r with error := some ⟨cause, r.position⟩ }

/-- Restricts reads to the next `size` bytes. The limit in force before is returned, also when
there are not so many bytes. -/
def pushLimit (r : Reader) (size : Nat) : Nat × Reader :=
  if r.remaining < size then (r.limit, r.fail .lengthOutOfBounds)
  else (r.limit, { r with limit := r.position + size })

def restoreLimit (r : Reader) (limit : Nat) : Reader := { r with limit := limit }

/-- Runs a decoder on the window. A decoder fails where it stopped, so the offset of the error is
the new position. -/
def read {α : Type} (r : Reader) (decoder : Decoder α) (onFailure : α) : α × Reader :=
  match r.error with
  | some _ => (onFailure, r)
  | none =>
    match decoder ⟨r.position, r.window⟩ with
    | .ok (a, c) => (a, { r with position := c.offset })
    | .error e => (onFailure, { r with position := e.offset, error := some e })

/-- The number that a sequence of bytes spells, low byte first. -/
def littleEndian : List UInt8 → Nat
  | [] => 0
  | b :: rest => b.toNat + 256 * littleEndian rest

/-- A little-endian number of `size` bytes. When the window is shorter, its bytes still count as
the low ones. -/
def readFixed (r : Reader) (size : Nat) : Nat × Reader :=
  let short := if r.error.isSome then 0 else littleEndian r.window
  r.read (Decoder.fixed size) short

end Reader

end WasmDebugger
