import WasmDebugger.Module

/-!
# Linear memory

A memory is a row of bytes with a count of its pages. Numbers stand in it with their low byte
first.

* `LinearMemory.read?`, `LinearMemory.write?`: a number or bytes at an address, if the range lies
  inside.
* `LinearMemory.grow?`: more pages, up to the bound fixed at the start.
-/

namespace WasmDebugger

structure LinearMemory where
  bytes : ByteArray
  /-- Counted beside the bytes. Who asks for the size in pages is told this number. -/
  pages : UInt32
  /-- The most pages that the memory grows to. -/
  bound : UInt32
  deriving Inhabited

namespace LinearMemory

/-! ## Size -/

/-- A page of zeros. -/
def emptyPage : ByteArray := ⟨Array.replicate pageSize 0⟩

/-- Bytes followed by so many pages of zeros. -/
def appendPages (bytes : ByteArray) : Nat → ByteArray
  | 0 => bytes
  | n + 1 => appendPages (bytes ++ emptyPage) n

/-- Bytes with zeros behind them up to a size. There is nothing to cut off: no memory is longer
than what it grows to. -/
def fillUp (bytes : ByteArray) (size : Nat) : ByteArray :=
  let missing := size - bytes.size
  appendPages bytes (missing / pageSize) ++ ⟨Array.replicate (missing % pageSize) 0⟩

/-- The memory of the declared least size. A host may allow fewer pages than addresses reach. -/
def ofLimits (limits : Limits) (hostPages : Nat) : LinearMemory where
  bytes := appendPages .empty limits.min.toNat
  pages := limits.min
  bound := (min ((limits.max.map (·.toNat)).getD maxPages) (min maxPages hostPages)).toUInt32

def size (m : LinearMemory) : Nat := m.bytes.size

def inBounds (m : LinearMemory) (address length : Nat) : Bool := address + length ≤ m.size

/-- The memory with `delta` more pages, if that is within the bound. What is left below the bound
is compared, since the sum of the pages may not fit into 32 bits. -/
def grow? (m : LinearMemory) (delta : UInt32) : Option LinearMemory :=
  if m.bound < m.pages || m.bound - m.pages < delta then none
  else
    some { m with
      bytes := fillUp m.bytes ((m.pages + delta).toNat * pageSize)
      pages := m.pages + delta }

/-! ## Access -/

/-- The number in `length` bytes from an address on. -/
def readNat (bytes : ByteArray) (address : Nat) : Nat → Nat
  | 0 => 0
  | length + 1 => (bytes[address]?.getD 0).toNat + 256 * readNat bytes (address + 1) length

def setByte (bytes : ByteArray) (address : Nat) (b : UInt8) : ByteArray :=
  if h : address < bytes.size then bytes.set address b h else bytes

/-- Puts the low `length` bytes of a number at an address. -/
def writeNat (bytes : ByteArray) (address n : Nat) : Nat → ByteArray
  | 0 => bytes
  | length + 1 => writeNat (setByte bytes address n.toUInt8) (address + 1) (n / 256) length

def writeBytes (bytes : ByteArray) (address : Nat) : List UInt8 → ByteArray
  | [] => bytes
  | b :: rest => writeBytes (setByte bytes address b) (address + 1) rest

def read? (m : LinearMemory) (address length : Nat) : Option Nat :=
  if m.inBounds address length then some (readNat m.bytes address length) else none

def write (m : LinearMemory) (address length n : Nat) : LinearMemory :=
  { m with bytes := writeNat m.bytes address n length }

def write? (m : LinearMemory) (address length n : Nat) : Option LinearMemory :=
  if m.inBounds address length then some (m.write address length n) else none

/-- Copies bytes to an address, if they fit. -/
def writeBytes? (m : LinearMemory) (address : Nat) (content : List UInt8) : Option LinearMemory :=
  if m.inBounds address content.length then
    some { m with bytes := writeBytes m.bytes address content }
  else none

/-- The bytes of a range, cut off at the end of the memory. -/
def slice (m : LinearMemory) (address length : Nat) : List UInt8 :=
  (m.bytes.extract address (address + length)).toList

/-- Overwrites the part that this memory and an image have in common. -/
def overwriteFront (m : LinearMemory) (image : ByteArray) : LinearMemory :=
  { m with bytes := image.copySlice 0 m.bytes 0 (min image.size m.size) }

end LinearMemory

/-! ## Loads and stores -/

namespace LoadOp

/-- The value that a load makes of the number it has read. -/
def value (op : LoadOp) (n : Nat) : Value :=
  match op with
  | .whole t => Value.ofNat t n
  | .narrow part true => .int part.width ((BitVec.ofNat part.bits n).signExtend part.width.bits)
  | .narrow part false => .int part.width (BitVec.ofNat part.width.bits n)

end LoadOp

namespace StoreOp

/-- The bits that a store takes from its operand; `none` when that is of another type. -/
def operand? (op : StoreOp) (v : Value) : Option Nat :=
  match op with
  | .whole t => if v.type = t then some v.toNat else none
  | .narrow part => (v.asInt? part.width).map (·.toNat)

end StoreOp

end WasmDebugger
