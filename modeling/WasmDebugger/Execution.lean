import WasmDebugger.Machine.Step
import WasmDebugger.Machine.Instantiate
import WasmDebugger.Notice

/-!
# Executions

A machine together with what became of it, and the operations that a debugger runs it with.

* `Execution.start`, `Execution.call`: enter a function afresh and go on to the first trap.
* `Execution.proceed`, `Execution.step`, `Execution.stepOver`, `Execution.stepOut`: resume. They
  differ only in when they stop (`StopRule`), and none of them looks at a breakpoint before its
  first instruction.
* Each takes a bound on the number of instructions, since a program need not end, and returns a
  `Run`: the execution afterwards, the outcome, and what was to be noted on the way.
-/

namespace WasmDebugger

inductive Status where
  | uninitialized
  | running
  | paused
  | finished
  | faulted
  deriving DecidableEq, Repr

/-- One word for a status, for tools that read the answers. -/
def Status.label : Status → String
  | .uninitialized => "Uninitialized"
  | .running => "Running"
  | .paused => "Paused"
  | .finished => "Finished"
  | .faulted => "Faulted"

structure Execution where
  machine : Machine
  status : Status

inductive Outcome where
  /-- The operation is done; without a trap it has stopped where it was to stop. -/
  | stopped (trap : Option Trap)
  /-- The host ended in an exception. -/
  | threw (message : String)
  /-- The bound on the number of instructions was reached. -/
  | unfinished
  deriving DecidableEq, Repr

structure Run where
  execution : Execution
  outcome : Outcome
  notices : List Notice

inductive CallError where
  | unknownFunction
  | arguments
  deriving DecidableEq, Repr

/-- A call that is refused leaves an execution too. -/
structure CallRefusal where
  error : CallError
  execution : Execution

/-- When a resumed execution stops without a trap. -/
inductive StopRule where
  | never
  | always
  /-- After an instruction that leaves no more than so many frames. -/
  | atDepth (depth : Nat)
  deriving DecidableEq, Repr

inductive Resumption where
  | proceed
  | step
  | stepOver
  | stepOut
  deriving DecidableEq, Repr

def StopRule.holds : StopRule → Machine → Bool
  | .never, _ => false
  | .always, _ => true
  | .atDepth depth, m => m.depth ≤ depth

def Status.ofTrap : Option Trap → Status
  | none => .paused
  | some .finished => .finished
  | some (.breakpoint _) => .paused
  | some (.watchpoint _) => .paused
  | some (.fault _) => .faulted

namespace Execution

/-! ## Notices -/

/-- The notice of the instruction at the current position. -/
def traceNotices (setup : Setup) (tracing : Bool) (m : Machine) : List Notice :=
  if tracing then
    match Machine.fetch? setup m.ip with
    | some i => [.traced m.ip i]
    | none => []
  else []

def faultNotices : Fault → List Notice
  | .refusedImport r => [.refused r]
  | _ => []

/-! ## Running -/

/-- The execution after a trap, or after stopping without one. -/
def stop (m : Machine) (trap : Option Trap) (notices : List Notice) : Run :=
  ⟨⟨m, .ofTrap trap⟩, .stopped trap, notices.reverse⟩

/-- How and with what an execution runs. -/
structure Mode where
  setup : Setup
  tracing : Bool
  watch : Breakpoints

/-- Carries out instructions until one raises a trap or the rule says to stop. With `check` a
breakpoint at the current position stops it too. Notices are collected last first. -/
def run (mode : Mode) (rule : StopRule) : Nat → Bool → Machine → List Notice → Run
  | 0, _, m, notices => ⟨⟨m, .running⟩, .unfinished, notices.reverse⟩
  | fuel + 1, check, m, notices =>
    match if check then mode.watch.findCode m.ip else none with
    | some index => stop m (some (.breakpoint index)) notices
    | none =>
      let notices := traceNotices mode.setup mode.tracing m ++ notices
      match m.dispatch mode.setup mode.watch with
      | .next m => if rule.holds m then stop m none notices else run mode rule fuel true m notices
      | .watched index m => stop m (some (.watchpoint index)) notices
      | .finished m => stop m (some .finished) notices
      | .fault f m => stop m (some (.fault f)) (faultNotices f ++ notices)
      | .threw message m => ⟨⟨m, .running⟩, .threw message, notices.reverse⟩

/-! ## Entering a function -/

/-- Pushes the arguments one by one, as far as the stack has room. -/
def pushArgs (m : Machine) : List Value → Except Machine Machine
  | [] => .ok m
  | v :: rest =>
    match m.stack.push? v with
    | none => .error m
    | some s => pushArgs (m.setStack s) rest

/-- The machine with nothing on the stack and no frames. -/
def reset (m : Machine) : Machine :=
  { m with ip := ⟨0, 0⟩, stack := m.stack.clear, frames := [] }

/-- The outermost frame returns to the start of the first function. -/
def setEntryReturn (m : Machine) : Machine :=
  { m with frames := m.frames.map fun frame => { frame with returnTo := ⟨0, 0⟩ } }

/-- Enters a function from outside. An imported one is called and has then finished. The start
function of an assembled module may be none of its functions. Then there is nothing that could be
entered and no behaviour to model; this is said by a fault. -/
def enterEntry (setup : Setup) (f : Nat) (args : List Value) (m : Machine) : Step :=
  match pushArgs { reset m with ip := ⟨f, 0⟩ } args with
  | .error m => .fault .valueStackExhausted m
  | .ok m =>
    match setup.module.functions[f]? with
    | some (.imported _ _) =>
      match m.callImport setup f with
      | .next m => .finished m
      | s => s
    | _ =>
      match m.call setup f with
      | .next m => .next (setEntryReturn m)
      | s => s

/-- Zeros for the parameters of a function. -/
def zeroArgs (module : Module) (f : Nat) : List Value :=
  match module.funcType? f with
  | some type => type.params.map Value.zero
  | none => []

/-- Enters a function and goes on from there. -/
def runEntry (mode : Mode) (fuel : Nat) (f : Nat) (args : List Value) (m : Machine) : Run :=
  match enterEntry mode.setup f args m with
  | .next m => run mode .never fuel true m []
  | .watched index m => stop m (some (.watchpoint index)) []
  | .finished m => stop m (some .finished) []
  | .fault f m => stop m (some (.fault f)) (faultNotices f)
  | .threw message m => ⟨⟨m, .uninitialized⟩, .threw message, []⟩

/-! ## Operations -/

/-- Parameters are zero when the entry point has any. Without an entry point nothing happens. -/
def start (mode : Mode) (fuel : Nat) (e : Execution) : Run :=
  match mode.setup.module.entryPoint? with
  | none => ⟨e, .stopped none, []⟩
  | some f => runEntry mode fuel f.toNat (zeroArgs mode.setup.module f.toNat) e.machine

/-- Why a function cannot be called with some arguments. -/
def callError? (module : Module) (f : Nat) (args : List Value) : Option CallError :=
  match module.funcType? f with
  | none => some .unknownFunction
  | some type => if args.map Value.type = type.params then none else some .arguments

def call (mode : Mode) (fuel : Nat) (f : Nat) (args : List Value) (e : Execution) :
    Except CallRefusal Run :=
  match callError? mode.setup.module f args with
  | some error => .error ⟨error, e⟩
  | none => .ok (runEntry mode fuel f args e.machine)

/-- Resumes an execution. One without a frame has finished. -/
def resume (mode : Mode) (fuel : Nat) (rule : StopRule) (e : Execution) : Run :=
  match e.machine.frames with
  | [] => stop e.machine (some .finished) []
  | _ :: _ => run mode rule fuel false e.machine []

/-- To the next trap. -/
def proceed (mode : Mode) (fuel : Nat) (e : Execution) : Run := e.resume mode fuel .never

/-- One instruction. -/
def step (mode : Mode) (e : Execution) : Run := e.resume mode 1 .always

/-- To the next instruction of this function or of a caller. -/
def stepOver (mode : Mode) (fuel : Nat) (e : Execution) : Run :=
  e.resume mode fuel (.atDepth e.machine.depth)

/-- To the caller. -/
def stepOut (mode : Mode) (fuel : Nat) (e : Execution) : Run :=
  e.resume mode fuel (.atDepth (e.machine.depth - 1))

/-- The four ways to resume. -/
def resumeBy (mode : Mode) (fuel : Nat) (e : Execution) : Resumption → Run
  | .proceed => e.proceed mode fuel
  | .step => e.step mode
  | .stepOver => e.stepOver mode fuel
  | .stepOut => e.stepOut mode fuel

end Execution

/-- A module made ready to run. -/
def Execution.ofModule? (module : Option Module) (limits : Limitation) :
    Except InitError Execution :=
  match module with
  | none => .error .noModule
  | some module => (Machine.instantiate? module limits).map fun m => ⟨m, .uninitialized⟩

end WasmDebugger
