import WasmDebugger.Value

/-!
# Operand stacks

One stack holds the operands of all active functions. The innermost function reaches only what
lies above the floor.

* `push?` is refused when the stack is full; `restore` and `replace`, which put back what was
  there or less, are not.
* `peek?` and `typed?` look at operands above the floor.
-/

namespace WasmDebugger

/-- Values with the top first. Their number is kept beside them. -/
structure OperandStack where
  values : List Value
  size : Nat
  floor : Nat
  limit : Nat
  size_eq : size = values.length

namespace OperandStack

def empty (limit : Nat) : OperandStack := ⟨[], 0, 0, limit, rfl⟩

instance : Inhabited OperandStack := ⟨empty 0⟩

/-- How many values lie above the floor. -/
def available (s : OperandStack) : Nat := s.size - s.floor

/-- The value so many places below the top. -/
def peek? (s : OperandStack) (depth : Nat) : Option Value :=
  if depth < s.available then s.values[depth]? else none

/-- The operands for parameters of the given types, the deepest one first. -/
def typed? (s : OperandStack) (types : List ValueType) : Option (List Value) :=
  if s.available < types.length then none
  else
    let operands := (s.values.take types.length).reverse
    if operands.map Value.type = types then some operands else none

def restore (s : OperandStack) (v : Value) : OperandStack :=
  { s with values := v :: s.values, size := s.size + 1, size_eq := by simp [s.size_eq] }

/-- Puts values back, the deepest one first. -/
def restoreAll (s : OperandStack) (vs : List Value) : OperandStack := vs.foldl restore s

def push? (s : OperandStack) (v : Value) : Option OperandStack :=
  if s.size < s.limit then some (s.restore v) else none

def pop (s : OperandStack) (count : Nat) : OperandStack :=
  { s with values := s.values.drop count, size := s.size - count, size_eq := by simp [s.size_eq] }

def replace (s : OperandStack) (count : Nat) (v : Value) : OperandStack := (s.pop count).restore v

/-- Takes off everything above a height. -/
def truncate (s : OperandStack) (height : Nat) : OperandStack := s.pop (s.size - height)

def setFloor (s : OperandStack) (floor : Nat) : OperandStack := { s with floor := floor }

def clear (s : OperandStack) : OperandStack := empty s.limit

end OperandStack

end WasmDebugger
