import WasmDebugger.Proofs.Faults
import WasmDebugger.Session

/-!
# Requests

A session answers a request or refuses it. What it refuses it has not begun: module, debug names,
breakpoints and execution are those from before.

* `Request`, `perform`: everything that a session can be asked for, and what it comes to.
* `Execution.start_ne_stopped_none`, `Execution.call_isOk`: the second looks of `Session.run` and
  `Session.call`, which come when there is a fresh execution already, find nothing to refuse.
* `Conducted`, `Performed`: the few things that a request can do to a session.
* **`perform_cases`**: every request does one of them.
* **`refused_changes_nothing`**: a refused request changes nothing, whatever the session.
* `after_granted`: so a session is what the requests that were not refused have made of it.
* `Dialogue`: requests and answers, one after the other, and the session that they lead to.
-/

namespace WasmDebugger

/-! ## The second look -/

namespace Execution

variable {mode : Mode} {fuel : Nat} {e : Execution}

/-- A run without a goal does not stop without a trap. -/
theorem run_never_ne_stopped_none {check : Bool} {m : Machine} {notices : List Notice} :
    (run mode .never fuel check m notices).outcome ≠ .stopped none := by
  induction fuel generalizing check m notices with
  | zero => exact fun h => nomatch h
  | succ fuel ih =>
    unfold run
    split
    · exact fun h => nomatch h
    · cases m.dispatch mode.setup mode.watch with
      | next m₁ => exact ih
      | watched _ _ | finished _ | fault _ _ | threw _ _ => exact fun h => nomatch h

/-- A start with an entry point has entered it. -/
theorem start_ne_stopped_none {f : UInt32} (h : mode.setup.module.entryPoint? = some f) :
    (e.start mode fuel).outcome ≠ .stopped none := by
  unfold start
  rw [h]
  simp only
  unfold runEntry
  cases enterEntry mode.setup f.toNat (zeroArgs mode.setup.module f.toNat) e.machine with
  | next m => exact run_never_ne_stopped_none
  | watched _ _ | finished _ | fault _ _ | threw _ _ => exact fun h => nomatch h

/-- A call that has been checked is not refused. -/
theorem call_isOk {f : Nat} {args : List Value}
    (h : callError? mode.setup.module f args = none) :
    ∃ r, e.call mode fuel f args = .ok r := by
  unfold call
  rw [h]
  exact ⟨_, rfl⟩

end Execution

/-! ## Reports -/

namespace Report

variable {ε ε' α α' : Type}

/-- The same report, with its answer and its error seen in another way. -/
def map (onError : ε → ε') (onAnswer : α → α') (r : Report ε α) : Report ε' α' :=
  ⟨r.session, (r.answer.map onAnswer).mapError onError, r.notices⟩

/-- A refusal comes with the session `s` as it was, and with no notices. -/
def Atomic (s : Session) (r : Report ε α) : Prop := ∀ e, r.answer = .error e → r = s.refuse e

end Report

/-- A module that has just been loaded: without breakpoints, and not run yet. -/
def Loaded.opened (path : String) (module : Module) : Loaded where
  path := path
  module := module
  names := (DebugNames.ofModule module).1

namespace Session

open Execution (Operation ofModule?)

/-! ## Requests -/

/-- What a session can be asked for. -/
inductive Request where
  | load (path : String)
  | start
  | run
  | call (f : Nat) (args : List Value)
  | reset
  | resume (how : Resumption)
  | backtrace
  | globals
  | operands
  | memory
  | locals (depth : Int)
  | addBreakpoint (b : Breakpoint)
  | deleteBreakpoint (index : UInt32)
  | clearBreakpoints
  | breakpoints

inductive Answer where
  | done
  | outcome (o : Outcome)
  | positions (ps : List Position)
  | values (vs : List Value)
  | memory (m : LinearMemory)
  | index (i : UInt32)
  /-- Whether there was something to delete. -/
  | deleted (found : Bool)
  | entries (es : List (UInt32 × Breakpoint))

inductive RequestError where
  | load (e : LoadError)
  | session (e : SessionError)

/-- An answer that is read off the session. -/
def inspect {α : Type} (s : Session) (answer : Except SessionError α) : Report SessionError α :=
  ⟨s, answer, []⟩

/-- What a request comes to, with some files and a bound on the number of instructions. -/
def perform (files : Files) (fuel : Nat) (s : Session) : Request → Report RequestError Answer
  | .load path => (s.load files path).map .load fun _ => .done
  | .start => (s.start fuel).map .session .outcome
  | .run => (s.run fuel).map .session .outcome
  | .call f args => (s.call fuel f args).map .session .outcome
  | .reset => ⟨s.reset, .ok .done, []⟩
  | .resume how => (s.resume fuel how).map .session .outcome
  | .backtrace => (s.inspect s.backtrace).map .session .positions
  | .globals => (s.inspect s.globals).map .session .values
  | .operands => (s.inspect s.operands).map .session .values
  | .memory => (s.inspect s.memory).map .session .memory
  | .locals depth => (s.inspect (s.locals depth)).map .session .values
  | .addBreakpoint b => (s.addBreakpoint b).map .session .index
  | .deleteBreakpoint index => (s.deleteBreakpoint index).map .session .deleted
  | .clearBreakpoints => s.clearBreakpoints.map .session fun _ => .done
  | .breakpoints => (s.inspect s.breakpoints).map .session .entries

variable {files : Files} {fuel : Nat} {s : Session} {l : Loaded} {e : Execution}

/-! ## What running comes to -/

/-- What can be run in a session: the execution that is there, or a fresh one of its module. -/
structure Runnable (s : Session) (l : Loaded) (e : Execution) : Prop where
  loaded : s.loaded = some l
  origin : l.execution = some e ∨ ofModule? (some l.module) s.config.limits = .ok e

/-- What running comes to: a refusal, or one operation with the module that is loaded and the
breakpoints that are there. -/
inductive Conducted (s : Session) : Report SessionError Outcome → Prop where
  | refused (error : SessionError) : Conducted s (s.refuse error)
  | ran {l : Loaded} {e : Execution} {r : Run} (he : s.Runnable l e)
      (h : Operation (s.mode l) e r) : Conducted s (s.record l r)

theorem ofModule?_of_instantiate (h : s.instantiate l = .ok e) :
    ofModule? (some l.module) s.config.limits = .ok e := by
  unfold instantiate at h
  cases hm : ofModule? (some l.module) s.config.limits with
  | error _ =>
    rw [hm] at h
    cases h
  | ok _ =>
    rw [hm] at h
    cases h
    rfl

theorem conducted_start : s.Conducted (s.start fuel) := by
  unfold start
  split
  · exact .refused _
  · rename_i l hl
    split
    · exact .refused _
    · rename_i e he
      exact .ran ⟨hl, Or.inr (ofModule?_of_instantiate he)⟩ (.started fuel)

/-- With an entry point a session is not started without entering it. -/
theorem start_answer_ne {f : UInt32} (hl : s.loaded = some l)
    (hf : l.module.entryPoint? = some f) : (s.start fuel).answer ≠ .ok (.stopped none) := by
  unfold start
  simp only [hl]
  split
  · exact fun h => nomatch h
  · intro h
    have hf : (s.mode l).setup.module.entryPoint? = some f := hf
    exact absurd (Except.ok.inj h) (Execution.start_ne_stopped_none hf)

theorem conducted_run : s.Conducted (s.run fuel) := by
  unfold run
  split
  · exact .refused _
  · rename_i l hl
    split
    · exact .refused _
    · rename_i f hf
      simp only
      split
      · rename_i hnone
        exact absurd hnone (start_answer_ne hl hf)
      · exact conducted_start

theorem conducted_call (f : Nat) (args : List Value) : s.Conducted (s.call fuel f args) := by
  unfold call
  split
  · exact .refused _
  · rename_i l hl
    split
    · exact .refused _
    · rename_i hc
      split
      · exact .refused _
      · rename_i e he
        have hc : Execution.callError? (s.mode l).setup.module f args = none := hc
        obtain ⟨r, hr⟩ : ∃ r, e.call (s.mode l) fuel f args = .ok r := Execution.call_isOk hc
        rw [hr]
        refine .ran ⟨hl, ?_⟩ (.called hr)
        unfold ensureExecution at he
        split at he
        · rename_i hlive
          cases he
          exact Or.inl hlive
        · exact Or.inr (ofModule?_of_instantiate he)

theorem live?_eq_some_iff : s.live? = some (l, e) ↔ s.loaded = some l ∧ l.execution = some e := by
  unfold live?
  simp only [Option.bind_eq_some_iff, Option.map_eq_some_iff, Prod.mk.injEq]
  constructor
  · rintro ⟨_, hl, _, he, rfl, rfl⟩
    exact ⟨hl, he⟩
  · rintro ⟨hl, he⟩
    exact ⟨l, hl, e, he, rfl, rfl⟩

theorem conducted_resume (how : Resumption) : s.Conducted (s.resume fuel how) := by
  unfold resume
  split
  · exact .refused _
  · rename_i l e hlive
    obtain ⟨hl, he⟩ := live?_eq_some_iff.mp hlive
    exact .ran ⟨hl, Or.inl he⟩ (.resumed fuel how)

/-! ## What a request comes to -/

/-- Requests about the module or its breakpoints. -/
def Request.administers : Request → Bool
  | .load _ | .addBreakpoint _ | .deleteBreakpoint _ | .clearBreakpoints => true
  | _ => false

/-- **What a request can do to a session.** All but four leave module and breakpoints alone. -/
inductive Performed (files : Files) (s : Session) :
    Request → Report RequestError Answer → Prop where
  | refused {request : Request} (error : RequestError) : Performed files s request (s.refuse error)
  | told {request : Request} {answer : Answer} (h : request.administers = false)
      (hanswer : ∀ o, answer ≠ .outcome o) : Performed files s request ⟨s, .ok answer, []⟩
  | ran {request : Request} {l : Loaded} {e : Execution} {r : Run}
      (h : request.administers = false) (he : s.Runnable l e) (hr : Operation (s.mode l) e r) :
      Performed files s request
        ⟨s.withExecution l r.execution, .ok (.outcome r.outcome), r.notices⟩
  | reset : Performed files s .reset ⟨s.reset, .ok .done, []⟩
  | loaded {path : String} {bytes : List UInt8} {module : Module} {notices : List Notice}
      (hbytes : files (untilNul path) = some bytes) (hmodule : Module.ofBytes? bytes = .ok module) :
      Performed files s (.load path)
        ⟨{ s with loaded := some (.opened path module) }, .ok .done, notices⟩
  | added {b : Breakpoint} {l : Loaded} (hl : s.loaded = some l)
      (hb : breakpointError? l.module b = none) :
      Performed files s (.addBreakpoint b)
        ⟨s.withBreakpoints l (l.breakpoints.add b).2, .ok (.index (l.breakpoints.add b).1), []⟩
  | deleted {index : UInt32} {l : Loaded} (hl : s.loaded = some l) :
      Performed files s (.deleteBreakpoint index)
        ⟨s.withBreakpoints l (l.breakpoints.remove index).2,
          .ok (.deleted (l.breakpoints.remove index).1), []⟩
  | cleared {l : Loaded} (hl : s.loaded = some l) :
      Performed files s .clearBreakpoints
        ⟨s.withBreakpoints l l.breakpoints.clear, .ok .done, []⟩

variable {request : Request}

theorem performed_of_conducted {report : Report SessionError Outcome} (h : s.Conducted report)
    (hadministers : request.administers = false) :
    s.Performed files request (report.map .session .outcome) := by
  cases h with
  | refused error => exact .refused _
  | ran he hr => exact .ran hadministers he hr

theorem performed_inspect {α : Type} (answer : Except SessionError α) {onAnswer : α → Answer}
    (hadministers : request.administers = false) (honAnswer : ∀ a o, onAnswer a ≠ .outcome o) :
    s.Performed files request ((s.inspect answer).map .session onAnswer) := by
  cases answer with
  | error error => exact .refused _
  | ok a => exact .told hadministers (honAnswer a)

theorem performed_load (path : String) :
    s.Performed files (.load path) ((s.load files path).map .load fun _ => .done) := by
  unfold load
  split
  · exact .refused _
  · rename_i bytes hbytes
    split
    · exact .refused _
    · rename_i module hmodule
      exact .loaded hbytes hmodule

theorem performed_addBreakpoint (b : Breakpoint) :
    s.Performed files (.addBreakpoint b) ((s.addBreakpoint b).map .session .index) := by
  unfold addBreakpoint
  split
  · exact .refused _
  · rename_i l hl
    split
    · exact .refused _
    · rename_i hb
      exact .added hl hb

theorem performed_deleteBreakpoint (index : UInt32) :
    s.Performed files (.deleteBreakpoint index)
      ((s.deleteBreakpoint index).map .session .deleted) := by
  unfold deleteBreakpoint
  split
  · exact .refused _
  · rename_i l hl
    exact .deleted hl

theorem performed_clearBreakpoints :
    s.Performed files .clearBreakpoints (s.clearBreakpoints.map .session fun _ => .done) := by
  unfold clearBreakpoints
  split
  · exact .refused _
  · rename_i l hl
    exact .cleared hl

/-- **Every request does one of these things.** -/
theorem perform_cases (files : Files) (fuel : Nat) (s : Session) (request : Request) :
    s.Performed files request (s.perform files fuel request) := by
  cases request with
  | load path => exact performed_load path
  | start => exact performed_of_conducted conducted_start rfl
  | run => exact performed_of_conducted conducted_run rfl
  | call f args => exact performed_of_conducted (conducted_call f args) rfl
  | reset => exact .reset
  | resume how => exact performed_of_conducted (conducted_resume how) rfl
  | backtrace | globals | operands | memory | breakpoints =>
    exact performed_inspect _ rfl fun _ _ h => nomatch h
  | locals depth => exact performed_inspect _ rfl fun _ _ h => nomatch h
  | addBreakpoint b => exact performed_addBreakpoint b
  | deleteBreakpoint index => exact performed_deleteBreakpoint index
  | clearBreakpoints => exact performed_clearBreakpoints

/-! ## Refusals -/

theorem atomic_perform (request : Request) : (s.perform files fuel request).Atomic s := by
  intro error h
  have hcases := perform_cases files fuel s request
  generalize s.perform files fuel request = report at h hcases
  cases hcases with
  | refused _ =>
    cases h
    rfl
  | _ => cases h

/-- **A refused request changes nothing**: in every session, path, module, debug names,
breakpoints with the index to be given next, and the execution, if there is one, are those from
before. Nothing is noted either. -/
theorem refused_changes_nothing (files : Files) (fuel : Nat) (s : Session) (request : Request)
    {e : RequestError} (h : (s.perform files fuel request).answer = .error e) :
    (s.perform files fuel request).session = s ∧ (s.perform files fuel request).notices = [] := by
  rw [atomic_perform request e h]
  exact ⟨rfl, rfl⟩

/-- A session that has stopped at a breakpoint behind its first instruction. -/
def paused : Session where
  loaded := some
    { path := "nop.wasm"
      module := { types := #[⟨[], []⟩], functions := #[.defined 0 [] #[.nop, .blockEnd]] }
      names := { functions := [(0, "nop")] }
      breakpoints := (Breakpoints.add {} (.code ⟨0, 1⟩)).2
      execution := some
        { machine :=
            { ip := ⟨0, 1⟩
              stack := .empty 1048576
              frames := [⟨0, #[], ⟨0, 0⟩, 0, []⟩]
              globals := #[]
              memories := #[]
              tables := #[] }
          status := .paused } }

/-- A file that cannot be opened and a call with a wrong argument leave it alone. -/
theorem refused_changes_nothing_paused :
    (paused.perform (fun _ => none) 9 (.load "other.wasm")).answer =
        .error (.load ⟨.cannotOpen "other.wasm", 0⟩) ∧
      (paused.perform (fun _ => none) 9 (.load "other.wasm")).session = paused ∧
      (paused.perform (fun _ => none) 9 (.call 0 [.i32 1])).answer =
        .error (.session .arguments) ∧
      (paused.perform (fun _ => none) 9 (.call 0 [.i32 1])).session = paused := by
  have hload : (paused.perform (fun _ => none) 9 (.load "other.wasm")).answer =
      .error (.load ⟨.cannotOpen "other.wasm", 0⟩) := rfl
  have hcall : (paused.perform (fun _ => none) 9 (.call 0 [.i32 1])).answer =
      .error (.session .arguments) := rfl
  exact ⟨hload, (refused_changes_nothing _ _ _ _ hload).1, hcall,
    (refused_changes_nothing _ _ _ _ hcall).1⟩

/-! ## One request after the other -/

/-- The session after some requests. -/
def after (files : Files) (fuel : Nat) : Session → List Request → Session
  | s, [] => s
  | s, request :: rest => after files fuel (s.perform files fuel request).session rest

/-- Those of some requests that are not refused when they are made. -/
def granted (files : Files) (fuel : Nat) : Session → List Request → List Request
  | _, [] => []
  | s, request :: rest =>
    let report := s.perform files fuel request
    match report.answer with
    | .ok _ => request :: granted files fuel report.session rest
    | .error _ => granted files fuel report.session rest

/-- **Refused requests leave no trace in a session**: it is the same without them. -/
theorem after_granted (requests : List Request) :
    after files fuel s (granted files fuel s requests) = after files fuel s requests := by
  induction requests generalizing s with
  | nil => rfl
  | cons request rest ih =>
    show after files fuel s (granted files fuel s (request :: rest)) =
      after files fuel (s.perform files fuel request).session rest
    unfold granted
    simp only
    cases ha : (s.perform files fuel request).answer with
    | ok _ => exact ih
    | error e =>
      simp only
      have hs : (s.perform files fuel request).session = s := by
        rw [atomic_perform request e ha]
        rfl
      rw [hs]
      exact ih

/-- A request and what was answered. -/
structure Exchange where
  request : Request
  answer : Except RequestError Answer

/-- The path of a load that was granted. -/
def Exchange.loaded? : Exchange → Option String
  | ⟨.load path, .ok _⟩ => some path
  | _ => none

/-- **A dialogue** that leads from one session to another, its exchanges in order. -/
inductive Dialogue (s : Session) : List Exchange → Session → Prop where
  | opened : Dialogue s [] s
  | performed {xs : List Exchange} {s' : Session} (files : Files) (fuel : Nat) (request : Request)
      (h : Dialogue s xs s') :
      Dialogue s (xs ++ [⟨request, (s'.perform files fuel request).answer⟩])
        (s'.perform files fuel request).session
  /-- The host comes to answer otherwise. -/
  | hosted {xs : List Exchange} {s' : Session} (bridge : Option Bridge) (h : Dialogue s xs s') :
      Dialogue s xs { s' with config := { s'.config with bridge := bridge } }

/-- One more request, when it is known what it comes to. -/
theorem Dialogue.snoc {s s' s'' : Session} {xs : List Exchange} {request : Request}
    {answer : Except RequestError Answer} {notices : List Notice} (h : Dialogue s xs s')
    (hp : s'.perform files fuel request = ⟨s'', answer, notices⟩) :
    Dialogue s (xs ++ [⟨request, answer⟩]) s'' := by
  have hnext := h.performed files fuel request
  rw [hp] at hnext
  exact hnext

end Session

end WasmDebugger
