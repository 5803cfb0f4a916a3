import WasmDebugger.Numeral

/-!
# Breakpoints and watchpoints

* `Position`: an instruction of a function.
* `Breakpoint`: a stop at an instruction, or at an access to memory or to a global.
* `Breakpoints`: the registry. Entries keep the index under which they were added, in increasing
  order, and no index is handed out twice before they have all been.
* `findCode`, `findGlobal`, `findMemory`: the lowest entry that an access hits.
-/

namespace WasmDebugger

open Numeral

structure Position where
  function : Nat
  instr : Nat
  deriving DecidableEq, Repr, Inhabited

def Position.text (p : Position) : String := "f" ++ decimal p.function ++ ":#" ++ decimal p.instr

/-- Kinds of access that a watchpoint reacts to. -/
inductive Trigger where
  | read
  | write
  | readWrite
  deriving DecidableEq, Repr

namespace Trigger

def text : Trigger → String
  | .read => "read"
  | .write => "write"
  | .readWrite => "read/write"

/-- Two triggers match when they have a kind of access in common. -/
def matches? : Trigger → Trigger → Bool
  | .read, .write | .write, .read => false
  | _, _ => true

end Trigger

inductive Breakpoint where
  | code (position : Position)
  /-- Watches the bytes from `address` up to `address + length`. -/
  | memory (trigger : Trigger) (address length : UInt32)
  | global (trigger : Trigger) (index : UInt32)
  deriving DecidableEq, Repr

def Breakpoint.text : Breakpoint → String
  | .code p => "code at " ++ p.text
  | .memory t address length =>
    "watch " ++ t.text ++ " memory [0x" ++ hex 0 address.toNat ++ ", +" ++ decimal length.toNat ++ ")"
  | .global t index => "watch " ++ t.text ++ " global " ++ decimal index.toNat

/-- Entries with their indices, in increasing order of these, and the index to be given next. -/
structure Breakpoints where
  entries : List (UInt32 × Breakpoint) := []
  next : UInt32 := 0
  deriving DecidableEq, Repr, Inhabited

namespace Breakpoints

/-! ## Changing the registry -/

/-- Puts an entry at its place in the order. An index that is taken keeps its entry. -/
def insertEntry (index : UInt32) (b : Breakpoint) :
    List (UInt32 × Breakpoint) → List (UInt32 × Breakpoint)
  | [] => [(index, b)]
  | (i, c) :: rest =>
    if index < i then (index, b) :: (i, c) :: rest
    else if i < index then (i, c) :: insertEntry index b rest
    else (i, c) :: rest

def add (r : Breakpoints) (b : Breakpoint) : UInt32 × Breakpoints :=
  (r.next, ⟨insertEntry r.next b r.entries, r.next + 1⟩)

def get? (r : Breakpoints) (index : UInt32) : Option Breakpoint := r.entries.lookup index

/-- Takes an entry out and says whether there was one. -/
def remove (r : Breakpoints) (index : UInt32) : Bool × Breakpoints :=
  ((r.get? index).isSome, { r with entries := r.entries.filter fun e => e.1 != index })

/-- Takes all entries out; indices go on from where they were. -/
def clear (r : Breakpoints) : Breakpoints := { r with entries := [] }

def size (r : Breakpoints) : Nat := r.entries.length

/-! ## Looking up an access -/

/-- The index of the first entry that an access hits. -/
def find? (r : Breakpoints) (hit : Breakpoint → Bool) : Option UInt32 :=
  (r.entries.find? fun e => hit e.2).map (·.1)

def findCode (r : Breakpoints) (p : Position) : Option UInt32 :=
  r.find? fun
    | .code q => q = p
    | _ => false

def findGlobal (r : Breakpoints) (index : Nat) (access : Trigger) : Option UInt32 :=
  r.find? fun
    | .global t g => g.toNat = index && t.matches? access
    | _ => false

/-- An access and a watched range meet when each starts before the other ends. Ends are taken
modulo `2 ^ 64`. -/
def rangesMeet (start length : UInt32) (address accessLength : UInt64) : Bool :=
  start.toUInt64 < address + accessLength && address < start.toUInt64 + length.toUInt64

def findMemory (r : Breakpoints) (address length : UInt64) (access : Trigger) : Option UInt32 :=
  r.find? fun
    | .memory t start n => t.matches? access && rangesMeet start n address length
    | _ => false

end Breakpoints

end WasmDebugger
