import WasmDebugger.Breakpoints
import WasmDebugger.Memory
import WasmDebugger.OperandStack
import WasmDebugger.Trap
import WasmDebugger.ImportBridge

/-!
# Machine states

What changes while a module is executed, and what does not.

* `Machine`: position, operand stack, frames, globals, memories and tables.
* `Setup`: the module, the limits and the bridge to the host.
* `Step`: what carrying out one instruction comes to. A fault names the machine that it leaves,
  like every other outcome.
-/

namespace WasmDebugger

/-- Where a branch goes and what it carries. -/
structure Label where
  /-- The `end` of a block, or the loop instruction itself. -/
  continuation : Nat
  arity : Nat
  /-- The size of the stack when the label was entered. -/
  height : Nat
  isLoop : Bool
  deriving DecidableEq, Repr

/-- An active function. Labels are innermost first. -/
structure Frame where
  function : Nat
  locals : Array Value
  returnTo : Position
  /-- The size of the stack at entry, when the arguments had become locals. -/
  base : Nat
  labels : List Label
  deriving DecidableEq, Repr

/-- Frames are innermost first. -/
structure Machine where
  ip : Position
  stack : OperandStack
  frames : List Frame
  globals : Array Value
  memories : Array LinearMemory
  tables : Array (Array (Option UInt32))
  deriving Inhabited

structure Limitation where
  maxCallDepth : Nat := 1024
  maxValueStack : Nat := 1048576
  maxMemoryPages : Nat := maxPages
  deriving DecidableEq, Repr

structure Setup where
  module : Module
  limits : Limitation
  bridge : Bridge

inductive Step where
  | next (m : Machine)
  /-- The instruction is done, and it hit a watchpoint. -/
  | watched (index : UInt32) (m : Machine)
  /-- The outermost function has returned. -/
  | finished (m : Machine)
  | fault (f : Fault) (m : Machine)
  /-- The host ended in an exception. -/
  | threw (message : String) (m : Machine)

namespace Machine

def depth (m : Machine) : Nat := m.frames.length

def setStack (m : Machine) (s : OperandStack) : Machine := { m with stack := s }

def setPosition (m : Machine) (instr : Nat) : Machine :=
  { m with ip := { m.ip with instr := instr } }

/-- Goes on to the following instruction. One that jumps, calls or returns sets the position itself
instead. So whether there was a jump is settled within an instruction, and no mark of it is left in
the machine for a later one to find. -/
def advance (m : Machine) : Machine := m.setPosition (m.ip.instr + 1)

/-- Carries on with a new stack, or stops at a fault. -/
def withStack (m : Machine) : Except Fault OperandStack → Step
  | .ok s => .next (m.setStack s).advance
  | .error f => .fault f m

/-- Done, unless a watchpoint was hit. -/
def watchedAt (m : Machine) : Option UInt32 → Step
  | none => .next m
  | some index => .watched index m

end Machine

end WasmDebugger
