import WasmDebugger.Proofs.Reachable
import WasmDebugger.Proofs.Transparency

/-!
# Resuming after a fault

A fault leaves its instruction undone, so an execution that is resumed carries out the same
instruction again and comes to the same fault. That needs a frame to resume in: a fault on entering
a function from outside leaves none.

* `Operation`: what starting, calling and resuming come to.
* `Operation.fault_cases`: a fault comes from the instruction at the position, or from entering a
  function.
* `resumeBy_of_fault`: the first comes again, whichever way the execution is resumed.
* **`fault_recurs_iff`**: a fault comes again at every request if and only if there is a frame.
* `entry_fault_finishes`: a fault without one, at a concrete call, and how it is forgotten.
-/

namespace WasmDebugger

namespace Machine

variable {setup : Setup} {m m' r : Machine} {f : Fault}

/-- A program that ends in a fault has come to a faulting instruction. -/
theorem eq_fault_of_ended? {step : Step} (h : step.ended? = some (.fault f, r)) :
    step = .fault f r := by
  cases step <;> cases h
  rfl

/-- Where the program left alone ends in a fault, the instruction at the position faults. -/
theorem dispatch_of_undisturbed (h : Undisturbed setup (some (.fault f)) r m) :
    r.dispatch setup {} = .fault f r := by
  generalize htrap : some (Trap.fault f) = trap at h
  induction h with
  | here hp =>
    subst htrap
    exact absurd hp (by simp [Trap.isTerminal])
  | ended ht h =>
    subst htrap
    cases ht
    have hd := eq_fault_of_ended? h
    have hr := eq_of_dispatch_fault hd
    rw [hr] at hd ⊢
    exact hd
  | next _ _ ih => exact ih

/-- An instruction that faults does so under every registry. -/
theorem dispatch_fault_watched (h : m.dispatch setup {} = .fault f m) (watch : Breakpoints) :
    m.dispatch setup watch = .fault f m := by
  refine eq_fault_of_ended? ?_
  rw [ended?_dispatch, h]
  rfl

/-- There is no instruction to fault without a frame. -/
theorem frames_ne_nil_of_fault {watch : Breakpoints} (h : m.dispatch setup watch = .fault f m') :
    m.frames ≠ [] := by
  intro hnil
  unfold dispatch at h
  rw [hnil] at h
  cases h

end Machine

namespace Execution

open Machine

variable {mode : Mode} {rule : StopRule} {fuel : Nat} {check : Bool} {m : Machine}
  {notices : List Notice} {trap : Option Trap} {f : Fault} {e : Execution} {r : Run}

/-! ## Operations -/

/-- A run that stops leaves the status for its trap. -/
theorem run_status (h : (run mode rule fuel check m notices).outcome = .stopped trap) :
    (run mode rule fuel check m notices).execution.status = .ofTrap trap := by
  induction fuel generalizing check m notices with
  | zero => cases h
  | succ fuel ih =>
    revert h
    unfold run
    split
    · intro h
      cases h
      rfl
    · cases m.dispatch mode.setup mode.watch with
      | next m₁ =>
        simp only
        split
        · intro h
          cases h
          rfl
        · exact ih
      | watched _ _ | finished _ | fault _ _ =>
        intro h
        cases h
        rfl
      | threw _ _ =>
        intro h
        cases h

/-- What one operation on an execution comes to. A call that is refused is none. -/
inductive Operation (mode : Mode) (e : Execution) : Run → Prop where
  | started (fuel : Nat) : Operation mode e (e.start mode fuel)
  | called {fuel g : Nat} {args : List Value} {r : Run} (h : e.call mode fuel g args = .ok r) :
      Operation mode e r
  | resumed (fuel : Nat) (how : Resumption) : Operation mode e (e.resumeBy mode fuel how)

/-- What entering a function and every instruction keep, an operation keeps. -/
theorem Operation.keeps {P : Machine → Prop}
    (hentry : ∀ g args m, P m → P (enterEntry mode.setup g args m).machine)
    (hd : ∀ m, P m → P (m.dispatch mode.setup mode.watch).machine) (h : Operation mode e r)
    (he : P e.machine) : P r.execution.machine := by
  cases h with
  | started fuel =>
    unfold start
    split
    · exact he
    · exact runEntry_keeps hd (hentry _ _ _ he)
  | called hr =>
    unfold call at hr
    split at hr
    · cases hr
    · cases hr
      exact runEntry_keeps hd (hentry _ _ _ he)
  | resumed fuel how => exact resumeBy_keeps hd he

/-- A fault on entering a function leaves no frame. -/
theorem frames_of_enterEntry_fault {setup : Setup} {g : Nat} {args : List Value} {m' : Machine}
    (h : enterEntry setup g args m = .fault f m') : m'.frames = [] := by
  have hentry := enterEntry_entry setup g args m
  rw [h] at hentry
  cases hentry with
  | idle hi _ _ => exact hi.frames

/-- **Where a fault comes from**, if something was entered: from the instruction at the position,
or from entering. -/
theorem runEntry_fault_cases {g : Nat} {args : List Value}
    (h : (runEntry mode fuel g args m).outcome = .stopped (some (.fault f))) :
    (runEntry mode fuel g args m).execution.status = .faulted ∧
      ((runEntry mode fuel g args m).execution.machine.dispatch mode.setup {} =
          .fault f (runEntry mode fuel g args m).execution.machine ∨
        enterEntry mode.setup g args m =
          .fault f (runEntry mode fuel g args m).execution.machine) := by
  revert h
  unfold runEntry
  cases enterEntry mode.setup g args m with
  | next m₁ =>
    intro h
    exact ⟨run_status h, Or.inl (dispatch_of_undisturbed (run_undisturbed rfl h))⟩
  | fault f' m₁ =>
    intro h
    cases h
    exact ⟨rfl, Or.inr rfl⟩
  | watched _ _ | finished _ | threw _ _ =>
    intro h
    cases h

theorem resumeBy_fault_cases {how : Resumption}
    (h : (e.resumeBy mode fuel how).outcome = .stopped (some (.fault f))) :
    (e.resumeBy mode fuel how).execution.status = .faulted ∧
      (e.resumeBy mode fuel how).execution.machine.dispatch mode.setup {} =
        .fault f (e.resumeBy mode fuel how).execution.machine := by
  refine ⟨?_, dispatch_of_undisturbed (resumeBy_undisturbed how h)⟩
  by_cases hf : e.machine.frames = []
  · rw [resumeBy_of_frames_nil hf] at h
    cases h
  · obtain ⟨rule, fuel', hrun⟩ : ∃ rule fuel', e.resumeBy mode fuel how =
        run mode rule fuel' false e.machine [] := resumeBy_run hf how
    rw [hrun] at h ⊢
    exact run_status h

/-- **Where a fault comes from**: the instruction at the position, which faults again, or
entering a function, and then no more has happened. -/
theorem Operation.fault_cases (h : Operation mode e r)
    (hf : r.outcome = .stopped (some (.fault f))) :
    r.execution.status = .faulted ∧
      (r.execution.machine.dispatch mode.setup {} = .fault f r.execution.machine ∨
        ∃ fuel g args, r = runEntry mode fuel g args e.machine ∧
          enterEntry mode.setup g args e.machine = .fault f r.execution.machine) := by
  cases h with
  | started fuel =>
    revert hf
    unfold start
    split
    · intro hf
      cases hf
    · intro hf
      obtain ⟨hstatus, h⟩ := runEntry_fault_cases hf
      exact ⟨hstatus, h.imp_right fun h => ⟨_, _, _, rfl, h⟩⟩
  | called hr =>
    unfold call at hr
    split at hr
    · cases hr
    · cases hr
      obtain ⟨hstatus, h⟩ := runEntry_fault_cases hf
      exact ⟨hstatus, h.imp_right fun h => ⟨_, _, _, rfl, h⟩⟩
  | resumed fuel how =>
    obtain ⟨hstatus, h⟩ := resumeBy_fault_cases hf
    exact ⟨hstatus, Or.inl h⟩

/-! ## Resuming again -/

/-- A request to go on: in one of the four ways, with a registry, and with so many instructions
after the first. -/
structure Request where
  how : Resumption
  tracing : Bool
  watch : Breakpoints
  further : Nat

def Request.answer (setup : Setup) (e : Execution) (q : Request) : Run :=
  e.resumeBy ⟨setup, q.tracing, q.watch⟩ (q.further + 1) q.how

/-- What request after request comes to. -/
def answers (setup : Setup) : Execution → List Request → List Run
  | _, [] => []
  | e, q :: rest => q.answer setup e :: answers setup (q.answer setup e).execution rest

/-- **A faulting instruction faults again** and leaves the machine as it is. -/
theorem resumeBy_of_fault (h : e.machine.dispatch mode.setup mode.watch = .fault f e.machine)
    (fuel : Nat) (how : Resumption) :
    e.resumeBy mode (fuel + 1) how =
      stop e.machine (some (.fault f))
        (faultNotices f ++ traceNotices mode.setup mode.tracing e.machine) := by
  have hresume : ∀ fuel rule, e.resume mode (fuel + 1) rule = stop e.machine (some (.fault f))
      (faultNotices f ++ traceNotices mode.setup mode.tracing e.machine) := by
    intro fuel rule
    rw [resume_of_frames (frames_ne_nil_of_fault h)]
    unfold run
    simp only [Bool.false_eq_true, if_false, h, List.append_nil]
  cases how with
  | step => exact hresume 0 _
  | proceed | stepOver | stepOut => exact hresume fuel _

/-- So it does at every request in a row. -/
theorem answers_of_fault {setup : Setup} (hstatus : e.status = .faulted)
    (h : e.machine.dispatch setup {} = .fault f e.machine) (requests : List Request) :
    ∀ r ∈ answers setup e requests,
      r.outcome = .stopped (some (.fault f)) ∧ r.execution = e := by
  -- every answer leaves the execution that it began with
  induction requests with
  | nil => exact fun r hr => absurd hr List.not_mem_nil
  | cons q rest ih =>
    have hq : q.answer setup e = stop e.machine (some (.fault f))
        (faultNotices f ++ traceNotices setup q.tracing e.machine) := by
      unfold Request.answer
      exact resumeBy_of_fault (dispatch_fault_watched h q.watch) q.further q.how
    have he : (q.answer setup e).execution = e := by
      rw [hq]
      show (⟨e.machine, .faulted⟩ : Execution) = e
      rw [← hstatus]
    intro r hr
    rcases List.mem_cons.mp hr with rfl | hr
    · exact ⟨by rw [hq]; rfl, he⟩
    · rw [he] at hr
      exact ih r hr

/-- **Which faults come again.** When an operation has ended in a fault, whatever it was and from
any execution:

* the execution is faulted;
* every later request, in any way and with any registry, comes to the same fault and leaves the
  execution as it was, if and only if there is a frame;
* there is none if and only if the fault came up while the operation was entering a function;
* then every later request finishes the execution. -/
theorem fault_recurs_iff (h : Operation mode e r) (hf : r.outcome = .stopped (some (.fault f))) :
    r.execution.status = .faulted ∧
      ((∀ requests, ∀ r' ∈ answers mode.setup r.execution requests,
          r'.outcome = r.outcome ∧ r'.execution = r.execution) ↔
        r.execution.machine.frames ≠ []) ∧
      (r.execution.machine.frames = [] ↔
        ∃ fuel g args, r = runEntry mode fuel g args e.machine ∧
          enterEntry mode.setup g args e.machine = .fault f r.execution.machine) ∧
      (r.execution.machine.frames = [] → ∀ q : Request,
        (q.answer mode.setup r.execution).outcome = .stopped (some .finished) ∧
          (q.answer mode.setup r.execution).execution.status = .finished) := by
  obtain ⟨hstatus, hcases⟩ := h.fault_cases hf
  have hfinished : r.execution.machine.frames = [] → ∀ q : Request,
      (q.answer mode.setup r.execution).outcome = .stopped (some .finished) ∧
        (q.answer mode.setup r.execution).execution.status = .finished := by
    intro hnil q
    unfold Request.answer
    rw [resumeBy_of_frames_nil hnil]
    exact ⟨rfl, rfl⟩
  refine ⟨hstatus, ⟨fun hrecurs hnil => ?_, fun hframes requests r' hr' => ?_⟩,
    ⟨fun hnil => ?_, fun hentry => ?_⟩, hfinished⟩
  · have hsame := (hrecurs [⟨.proceed, false, {}, 0⟩] _ (List.mem_singleton.mpr rfl)).1
    rw [(hfinished hnil ⟨.proceed, false, {}, 0⟩).1, hf] at hsame
    cases hsame
  · rcases hcases with hd | ⟨_, g, args, -, hentry⟩
    · rw [hf]
      exact answers_of_fault hstatus hd requests r' hr'
    · exact absurd (frames_of_enterEntry_fault hentry) hframes
  · exact hcases.resolve_left fun hd => frames_ne_nil_of_fault hd hnil
  · obtain ⟨_, g, args, -, hentry⟩ := hentry
    exact frames_of_enterEntry_fault hentry

/-- A function that divides by zero. -/
def dividing : Setup where
  module :=
    { types := #[⟨[], [.i32]⟩]
      functions := #[.defined 0 []
        #[.const (.i32 7), .const (.i32 0), .numeric (.intBinary .w32 .divU), .blockEnd]] }
  limits := {}
  bridge := .unavailable

/-- It, called. -/
def divided : Run :=
  runEntry ⟨dividing, false, {}⟩ 9 0 [] (bare dividing.limits)

/-- The division stays the next instruction, and its operands stay where they are. -/
theorem fault_recurs_dividing :
    Operation ⟨dividing, false, {}⟩ ⟨bare dividing.limits, .uninitialized⟩ divided ∧
      divided.outcome = .stopped (some (.fault .divisionByZero)) ∧
      divided.execution.machine.ip = ⟨0, 2⟩ ∧
      divided.execution.machine.stack.values = [.i32 0, .i32 7] ∧
      ∀ requests, ∀ r ∈ answers dividing divided.execution requests,
        r.outcome = divided.outcome ∧ r.execution = divided.execution := by
  have hcall : call ⟨dividing, false, {}⟩ 9 0 [] ⟨bare dividing.limits, .uninitialized⟩ =
      .ok divided := rfl
  have hoperation := Operation.called hcall
  have hf : divided.outcome = .stopped (some (.fault .divisionByZero)) := rfl
  have hframes : divided.execution.machine.frames ≠ [] := by decide
  exact ⟨hoperation, hf, rfl, rfl, (fault_recurs_iff hoperation hf).2.1.mpr hframes⟩

/-! ## Without a frame -/

/-- A module with nothing but an imported function, and no host for it. -/
def hostless : Setup where
  module := { types := #[⟨[], []⟩], functions := #[.imported 0 ⟨"env", "f"⟩] }
  limits := {}
  bridge := .unavailable

/-- The function, called. -/
def unanswered : Run :=
  runEntry ⟨hostless, false, {}⟩ 9 0 [] (bare hostless.limits)

/-- **A fault without a frame is forgotten**: the call ends in a fault, and the next request
reports that execution has finished. -/
theorem entry_fault_finishes :
    Reachable hostless.module hostless.limits unanswered.execution.machine ∧
      Operation ⟨hostless, false, {}⟩ ⟨bare hostless.limits, .uninitialized⟩ unanswered ∧
      (∃ f, unanswered.outcome = .stopped (some (.fault f))) ∧
      unanswered.execution.status = .faulted ∧
      (unanswered.execution.proceed ⟨hostless, false, {}⟩ 9).outcome =
        .stopped (some .finished) ∧
      (unanswered.execution.proceed ⟨hostless, false, {}⟩ 9).execution.status = .finished := by
  have hreachable : Reachable hostless.module hostless.limits (firstCall hostless 0) :=
    reachable_firstCall rfl 0
  have hcall : call ⟨hostless, false, {}⟩ 9 0 [] ⟨bare hostless.limits, .uninitialized⟩ =
      .ok unanswered := rfl
  exact ⟨hreachable, .called hcall, ⟨_, rfl⟩, rfl, rfl, rfl⟩

end Execution

end WasmDebugger
