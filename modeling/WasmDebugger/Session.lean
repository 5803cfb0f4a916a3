import WasmDebugger.Config
import WasmDebugger.Execution

/-!
# Sessions

A session is a configuration and at most one loaded module. What belongs to the module stands with
it: its breakpoints, its debug names, and the execution once there is one. So there is no execution
without a module, and loading another module leaves nothing of the old one behind.

* An operation returns the session afterwards, its answer, and what was to be noted (`Report`).
* Everything that can be refused is refused before anything changes. `Session.run` and
  `Session.call` look a second time when there is an execution, and find nothing new then.
* Running takes a bound on the number of instructions, as in `Execution`.
-/

namespace WasmDebugger

/-! ## Errors -/

/-- Why there is no execution to start. -/
inductive StartCause where
  | instantiation (error : InitError)
  | noEntryPoint
  /-- A reason given by whoever starts it. -/
  | stated (detail : String)
  deriving DecidableEq, Repr

def StartCause.message : StartCause → String
  | .instantiation error => error.message
  | .noEntryPoint => "module has no entry point"
  | .stated detail => detail

inductive SessionError where
  | notStarted (cause : StartCause)
  | noFile
  | notRunning
  | noMemory
  | breakpointPosition
  | watchpointGlobal
  | unimplemented
  | functionIndex
  | arguments
  | frameDepth
  deriving DecidableEq, Repr

def SessionError.text : SessionError → String
  | .notStarted cause => "Failed to initialize wasm instance: " ++ cause.message
  | .noFile => "No binary file loaded"
  | .notRunning => "The binary is not being run"
  | .noMemory => "No memory present"
  | .breakpointPosition => "Invalid breakpoint position"
  | .watchpointGlobal => "Invalid global for watchpoint"
  | .unimplemented => "This feature is still unimplemented"
  | .functionIndex => "Invalid function index"
  | .arguments => "Invalid arguments"
  | .frameDepth => "Invalid frame depth"

/-- One word for an error, for tools that read the answers. -/
def SessionError.label : SessionError → String
  | .notStarted _ => "InitError"
  | .noFile => "NoFileLoaded"
  | .notRunning => "NoRunningInstance"
  | .noMemory => "NoMemory"
  | .breakpointPosition => "InvalidBreakpointPosition"
  | .watchpointGlobal => "InvalidWatchpointGlobal"
  | .unimplemented => "Unimplemented"
  | .functionIndex => "InvalidFunctionIndex"
  | .arguments => "InvalidArguments"
  | .frameDepth => "InvalidFrameDepth"

def SessionError.ofCall : CallError → SessionError
  | .unknownFunction => .functionIndex
  | .arguments => .arguments

/-! ## State -/

/-- A module and what belongs to it. -/
structure Loaded where
  path : String
  module : Module
  names : DebugNames
  breakpoints : Breakpoints := {}
  execution : Option Execution := none

structure Session where
  config : Config := {}
  loaded : Option Loaded := none

/-- What an operation comes to. -/
structure Report (ε α : Type) where
  session : Session
  answer : Except ε α
  notices : List Notice := []

/-- The contents of the files that can be opened. -/
abbrev Files := String → Option (List UInt8)

/-- What stands in front of the first NUL of a text. To the file system a path ends there. -/
def untilNul (text : String) : String :=
  String.ofList (text.toList.takeWhile (· ≠ '\x00'))

namespace Session

def refuse {ε α : Type} (s : Session) (e : ε) : Report ε α := ⟨s, .error e, []⟩

/-! ## Loading -/

/-- Loads a module in place of the one that is there. -/
def load (files : Files) (path : String) (s : Session) : Report LoadError Unit :=
  match files (untilNul path) with
  | none => s.refuse ⟨.cannotOpen path, 0⟩
  | some bytes =>
    match Module.ofBytes? bytes with
    | .error e => s.refuse e
    | .ok module =>
      let (names, malformed) := DebugNames.ofModule module
      { session := { s with loaded := some { path := path, module := module, names := names } }
        answer := .ok ()
        notices := malformed.toList.map .namesIgnored }

/-! ## Running -/

def mode (s : Session) (l : Loaded) : Execution.Mode where
  setup := ⟨l.module, s.config.limits, s.config.makeBridge⟩
  tracing := s.config.tracing
  watch := l.breakpoints

def withExecution (s : Session) (l : Loaded) (e : Execution) : Session :=
  { s with loaded := some { l with execution := some e } }

/-- The session with an execution as a run has left it. -/
def record (s : Session) (l : Loaded) (r : Run) : Report SessionError Outcome :=
  ⟨s.withExecution l r.execution, .ok r.outcome, r.notices⟩

def instantiate (s : Session) (l : Loaded) : Except SessionError Execution :=
  (Execution.ofModule? (some l.module) s.config.limits).mapError fun e =>
    .notStarted (.instantiation e)

/-- Instantiates the module and enters it at its entry point. Without one the fresh execution is
kept as it is. -/
def start (fuel : Nat) (s : Session) : Report SessionError Outcome :=
  match s.loaded with
  | none => s.refuse .noFile
  | some l =>
    match s.instantiate l with
    | .error e => s.refuse e
    | .ok e => s.record l (e.start (s.mode l) fuel)

/-- Like `start`, but a module without an entry point is refused: before there is a fresh
execution, and again if that has not entered anything. -/
def run (fuel : Nat) (s : Session) : Report SessionError Outcome :=
  match s.loaded with
  | none => s.refuse .noFile
  | some l =>
    match l.module.entryPoint? with
    | none => s.refuse (.notStarted .noEntryPoint)
    | some _ =>
      let started := s.start fuel
      match started.answer with
      | .ok (.stopped none) => { started with answer := .error (.notStarted .noEntryPoint) }
      | _ => started

/-- The execution that is there, or a fresh one. -/
def ensureExecution (s : Session) (l : Loaded) : Except SessionError Execution :=
  match l.execution with
  | some e => .ok e
  | none => s.instantiate l

/-- Calls a function. The call is checked before anything is instantiated for it, and once more
by the execution. -/
def call (fuel : Nat) (f : Nat) (args : List Value) (s : Session) : Report SessionError Outcome :=
  match s.loaded with
  | none => s.refuse .noFile
  | some l =>
    match Execution.callError? l.module f args with
    | some e => s.refuse (.ofCall e)
    | none =>
      match s.ensureExecution l with
      | .error e => s.refuse e
      | .ok e =>
        match e.call (s.mode l) fuel f args with
        | .error r => (s.withExecution l r.execution).refuse (.ofCall r.error)
        | .ok r => s.record l r

/-- Drops the execution. -/
def reset (s : Session) : Session :=
  { s with loaded := s.loaded.map fun l => { l with execution := none } }

/-- The module that is being run, and its execution. -/
def live? (s : Session) : Option (Loaded × Execution) :=
  s.loaded.bind fun l => l.execution.map fun e => (l, e)

def resume (fuel : Nat) (how : Resumption) (s : Session) : Report SessionError Outcome :=
  match s.live? with
  | none => s.refuse .notRunning
  | some (l, e) => s.record l (e.resumeBy (s.mode l) fuel how)

/-! ## Inspection -/

def machine (s : Session) : Except SessionError Machine :=
  match s.live? with
  | none => .error .notRunning
  | some (_, e) => .ok e.machine

/-- The machine if it is inside a function. -/
def active? (s : Session) : Option Machine :=
  s.live?.bind fun (_, e) => if e.machine.frames.isEmpty then none else some e.machine

/-- Where each frame is, innermost first: the current position, then where a callee returns to. -/
def backtrace (s : Session) : Except SessionError (List Position) := do
  let m ← s.machine
  pure (m.ip :: m.frames.dropLast.map (·.returnTo))

def globals (s : Session) : Except SessionError (List Value) := do
  let m ← s.machine
  pure m.globals.toList

/-- All operands, the deepest one first. -/
def operands (s : Session) : Except SessionError (List Value) := do
  let m ← s.machine
  pure m.stack.values.reverse

def memory (s : Session) : Except SessionError LinearMemory := do
  let m ← s.machine
  match m.memory? with
  | some memory => pure memory
  | none => throw .noMemory

/-- The bytes of a range, as far as they lie in memory. -/
def readMemory (address length : Nat) (s : Session) : Except SessionError (List UInt8) := do
  let memory ← s.memory
  pure (memory.slice address length)

def pages (s : Session) : Except SessionError UInt32 := do
  let memory ← s.memory
  pure memory.pages

/-- A frame by its depth: from zero on counted from the outermost one, below that from the
innermost one, which is -1. -/
def frameAt? (m : Machine) (depth : Int) : Option Frame :=
  let index := if depth < 0 then m.frames.length + depth else depth
  if index < 0 then none else m.frames.reverse[index.toNat]?

def frame (depth : Int) (s : Session) : Except SessionError Frame := do
  let m ← s.machine
  match frameAt? m depth with
  | some frame => pure frame
  | none => throw .frameDepth

def locals (depth : Int) (s : Session) : Except SessionError (List Value) := do
  let frame ← s.frame depth
  pure frame.locals.toList

def functionName? (s : Session) (f : UInt32) : Option String :=
  s.loaded.bind fun l => l.names.function? f

def localName? (s : Session) (f l : UInt32) : Option String :=
  s.loaded.bind fun loaded => loaded.names.local? f l

/-! ## Breakpoints -/

/-- Why a breakpoint does not suit a module. Memory may be watched anywhere. -/
def breakpointError? (module : Module) : Breakpoint → Option SessionError
  | .code p => if module.hasInstruction p.function p.instr then none else some .breakpointPosition
  | .global _ index => if index.toNat < module.globals.size then none else some .watchpointGlobal
  | .memory _ _ _ => none

def withBreakpoints (s : Session) (l : Loaded) (b : Breakpoints) : Session :=
  { s with loaded := some { l with breakpoints := b } }

/-- Adds a breakpoint and answers with its index. -/
def addBreakpoint (b : Breakpoint) (s : Session) : Report SessionError UInt32 :=
  match s.loaded with
  | none => s.refuse .noFile
  | some l =>
    match breakpointError? l.module b with
    | some e => s.refuse e
    | none =>
      let (index, added) := l.breakpoints.add b
      { session := s.withBreakpoints l added, answer := .ok index }

/-- Takes a breakpoint out and answers whether there was one. -/
def deleteBreakpoint (index : UInt32) (s : Session) : Report SessionError Bool :=
  match s.loaded with
  | none => s.refuse .noFile
  | some l =>
    let (found, rest) := l.breakpoints.remove index
    { session := s.withBreakpoints l rest, answer := .ok found }

def clearBreakpoints (s : Session) : Report SessionError Unit :=
  match s.loaded with
  | none => s.refuse .noFile
  | some l => { session := s.withBreakpoints l l.breakpoints.clear, answer := .ok () }

/-- The entries with their indices, in increasing order of these. -/
def breakpoints (s : Session) : Except SessionError (List (UInt32 × Breakpoint)) :=
  match s.loaded with
  | none => .error .noFile
  | some l => .ok l.breakpoints.entries

end Session

end WasmDebugger
