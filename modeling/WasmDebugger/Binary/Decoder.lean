import WasmDebugger.Octets
import WasmDebugger.Binary.Error

/-!
# Decoding bytes

A decoder consumes bytes from the front of a window and either gives a value or stops with a
`LoadError`. It sees nothing outside its window, and `Decoder.within` gives an inner decoder a
window of its own.

* `Decoder.u32`, `Decoder.s32`, `Decoder.s64`: variable-length integers, seven bits to a byte,
  low groups first.
* `Decoder.vector`, `Decoder.untilEnd`: repetition by a count and to the end of the window.
* `Decoder.within`: a part of declared size, which has to be used up.
-/

namespace WasmDebugger

/-- The bytes of a window that are still to be read, and the offset of the first of them. -/
structure Cursor where
  offset : Nat
  rest : List UInt8
  deriving DecidableEq, Repr

abbrev Decoder (α : Type) : Type := StateT Cursor (Except LoadError) α

namespace Decoder

variable {α : Type}

/-! ## Bytes -/

/-- Stops at the current offset. -/
def fail (cause : LoadCause) : Decoder α := fun c => .error ⟨cause, c.offset⟩

/-- Stops unless a condition holds. -/
def require (condition : Bool) (cause : LoadCause) : Decoder Unit :=
  if condition then pure () else fail cause

def byte : Decoder UInt8 := fun c =>
  match c.rest with
  | [] => .error ⟨.endOfData, c.offset⟩
  | b :: rest => .ok (b, ⟨c.offset + 1, rest⟩)

def atEnd : Decoder Bool := fun c => .ok (c.rest.isEmpty, c)

def bytes (size : Nat) : Decoder (List UInt8) := fun c =>
  if c.rest.length < size then .error ⟨.endOfData, c.offset⟩
  else .ok (c.rest.take size, ⟨c.offset + size, c.rest.drop size⟩)

/-- All bytes to the end of the window. -/
def remainder : Decoder (List UInt8) := fun c =>
  .ok (c.rest, ⟨c.offset + c.rest.length, []⟩)

/-! ## Integers -/

/-- A little-endian number of so many bytes. -/
def fixed : Nat → Decoder Nat
  | 0 => pure 0
  | size + 1 => do
    let low ← byte
    let high ← fixed size
    pure (low.toNat + 256 * high)

/-- An unsigned number of up to `more + 1` groups, whose last group has four bits at most. -/
def unsignedGroups : Nat → Decoder Nat
  | 0 => do
    let b ← byte
    if b.toNat < 16 then pure b.toNat else fail .integerTooLong
  | more + 1 => do
    let b ← byte
    if b.toNat < 128 then pure b.toNat
    else
      let high ← unsignedGroups more
      pure (b.toNat - 128 + 128 * high)

/-- Seven bits read as a two's-complement number. -/
def signedGroup (b : UInt8) : Int := if b.toNat < 64 then b.toNat else (b.toNat : Int) - 128

/-- A signed number of up to `more + 1` groups. Of the last group `lastBits` bits belong to the
number and the others have to repeat its sign. -/
def signedGroups (lastBits : Nat) : Nat → Decoder Int
  | 0 => do
    let b ← byte
    let half := Nat.pow 2 (lastBits - 1)
    if b.toNat < half || (128 - half ≤ b.toNat && b.toNat < 128) then
      pure (signedGroup b)
    else fail .integerTooLarge
  | more + 1 => do
    let b ← byte
    if b.toNat < 128 then pure (signedGroup b)
    else
      let high ← signedGroups lastBits more
      pure ((b.toNat : Int) - 128 + 128 * high)

def u32 : Decoder UInt32 := do
  let n ← unsignedGroups 4
  pure n.toUInt32

def s32 : Decoder Int := signedGroups 4 4

def s64 : Decoder Int := signedGroups 1 9

/-! ## Repetition -/

/-- A number of items, each of which takes a byte or more. -/
def count : Decoder Nat := do
  let n ← u32
  fun c => if c.rest.length < n.toNat then .error ⟨.countTooLarge, c.offset⟩ else .ok (n.toNat, c)

def times (item : Decoder α) : Nat → Decoder (List α)
  | 0 => pure []
  | n + 1 => do
    let first ← item
    let rest ← times item n
    pure (first :: rest)

/-- A count and then so many items. -/
def vector (item : Decoder α) : Decoder (List α) := do
  let n ← count
  times item n

/-- Text behind its length. -/
def name : Decoder String := do
  let size ← count
  let text ← bytes size
  pure (Octets.ofBytes text)

/-- At most `n` items, as long as bytes are left. -/
def upTo (item : Decoder α) : Nat → Decoder (List α)
  | 0 => pure []
  | n + 1 => do
    if ← atEnd then pure []
    else
      let first ← item
      let rest ← upTo item n
      pure (first :: rest)

/-- Items to the end of the window; there are no more of them than bytes. -/
def untilEnd (item : Decoder α) : Decoder (List α) := fun c => upTo item c.rest.length c

/-! ## Windows -/

/-- Runs a decoder on the next `size` bytes alone and requires that it uses them up. -/
def within (size : Nat) (mismatch : LoadCause) (inner : Decoder α) : Decoder α := fun c =>
  if c.rest.length < size then .error ⟨.lengthOutOfBounds, c.offset⟩
  else
    match inner ⟨c.offset, c.rest.take size⟩ with
    | .error e => .error e
    | .ok (a, ⟨_, []⟩) => .ok (a, ⟨c.offset + size, c.rest.drop size⟩)
    | .ok (_, ⟨offset, _ :: _⟩) => .error ⟨mismatch, offset⟩

/-- Decodes a whole sequence of bytes, as far as the decoder goes. -/
def run? (decoder : Decoder α) (input : List UInt8) : Except LoadError α :=
  (decoder ⟨0, input⟩).map (·.1)

end Decoder

end WasmDebugger
