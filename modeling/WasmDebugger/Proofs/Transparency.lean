import WasmDebugger.Execution
import WasmDebugger.Proofs.Effect

/-!
# Debugging does not change the program

Breakpoints, watchpoints and the way an execution is resumed decide where it stops, and nothing
else: the machines that a debugger shows are those of the program left alone.

* `fault_changes_nothing`: the machine at a fault is the one before the faulting instruction, so
  a fault is no step of the program.
* `dispatch_unwatched`: an instruction does the same under every registry.
* **`debugging_transparent`**: every resumption stops on the path of the program left alone, and
  however often it is interrupted, it ends like that program.

The host answers equal calls equally, as every `Bridge` does.
-/

namespace WasmDebugger

/-- The same step, had nobody watched. -/
def Step.unwatched : Step → Step
  | .watched _ m => .next m
  | step => step

/-- The machine when the instruction is done; a fault or an exception leaves it undone. -/
def Step.done? : Step → Option Machine
  | .next m | .watched _ m | .finished m => some m
  | .fault _ _ | .threw _ _ => none

/-- The end of the program, and the machine it ended in. -/
def Step.ended? : Step → Option (Trap × Machine)
  | .finished m => some (.finished, m)
  | .fault f m => some (.fault f, m)
  | _ => none

/-- The program has ended, by itself or at a fault. -/
def Trap.isTerminal : Trap → Bool
  | .finished | .fault _ => true
  | .breakpoint _ | .watchpoint _ => false

namespace Machine

variable {setup : Setup} {watch : Breakpoints} {m m' : Machine}

/-! ## Faults -/

/-- **A faulting instruction changes nothing**, whichever it is and wherever it stands: position,
operands with their order and floor, frames with their locals, labels, bases and return addresses,
globals, memories and tables are those from before. The machine need not be a reachable one, and
host and registry may be any. -/
theorem fault_changes_nothing {f : Fault} (hf : m.frames ≠ []) :
    (∀ i, m.execute setup watch i = .fault f m' → m' = m) ∧
      (m.dispatch setup watch = .fault f m' → m' = m) := by
  refine ⟨fun i h => ?_, eq_of_dispatch_fault⟩
  cases hframes : m.frames with
  | nil => exact absurd hframes hf
  | cons frame callers =>
    have he : Effect setup m frame callers i (.fault f m') := h ▸ execute_effect hframes
    exact he.eq_of_fault

/-- A function that branches out of itself when its result is missing. -/
def emptyHanded : Setup where
  module := { types := #[⟨[], [.i32]⟩], functions := #[.defined 0 [] #[.brIf 0, .blockEnd]] }
  limits := {}
  bridge := .unavailable

/-- It, about to branch. -/
def aboutToBranch : Machine where
  ip := ⟨0, 0⟩
  stack := (OperandStack.empty 8).restore (.i32 1)
  frames := [⟨0, #[], ⟨0, 0⟩, 0, []⟩]
  globals := #[]
  memories := #[]
  tables := #[]

/-- It again, with the condition taken off and put back. -/
def backFromBranch : Machine :=
  (aboutToBranch.setStack (aboutToBranch.stack.pop 1)).setStack
    ((aboutToBranch.stack.pop 1).restore (.i32 1))

/-- The branch misses the result when its condition is off. -/
theorem fault_changes_nothing_brIf :
    aboutToBranch.frames ≠ [] ∧
      aboutToBranch.execute emptyHanded {} (.brIf 0) = .fault .typeMismatch backFromBranch ∧
      aboutToBranch.dispatch emptyHanded {} = .fault .typeMismatch backFromBranch ∧
      backFromBranch = aboutToBranch := by
  have hf : aboutToBranch.frames ≠ [] := by decide
  have hi : aboutToBranch.execute emptyHanded {} (.brIf 0) =
      .fault .typeMismatch backFromBranch := rfl
  have hd : aboutToBranch.dispatch emptyHanded {} = .fault .typeMismatch backFromBranch := rfl
  exact ⟨hf, hi, hd, (fault_changes_nothing hf).2 hd⟩

/-! ## Registries -/

@[simp] theorem unwatched_watchedAt (m : Machine) (hit : Option UInt32) :
    (m.watchedAt hit).unwatched = .next m := by
  cases hit <;> rfl

theorem globalGet_unwatched (m : Machine) (index : Nat) :
    (m.executeGlobalGet watch index).unwatched = (m.executeGlobalGet {} index).unwatched := by
  unfold executeGlobalGet
  split
  · rfl
  · split
    · rfl
    · simp only [unwatched_watchedAt]

theorem globalSet_unwatched (m : Machine) (index : Nat) :
    (m.executeGlobalSet setup watch index).unwatched =
      (m.executeGlobalSet setup {} index).unwatched := by
  unfold executeGlobalSet
  split
  · rfl
  · split
    · simp only [unwatched_watchedAt]
    · rfl

theorem load_unwatched (m : Machine) (op : LoadOp) (arg : MemArg) :
    (m.executeLoad watch op arg).unwatched = (m.executeLoad {} op arg).unwatched := by
  unfold executeLoad
  split
  · rfl
  · split
    · rfl
    · simp only
      split
      · rfl
      · simp only [unwatched_watchedAt]

theorem store_unwatched (m : Machine) (op : StoreOp) (arg : MemArg) :
    (m.executeStore watch op arg).unwatched = (m.executeStore {} op arg).unwatched := by
  unfold executeStore
  split
  · rfl
  · split
    · simp only
      split
      · simp only [unwatched_watchedAt]
      · rfl
    · rfl

/-- **The registry does not change what an instruction does**, only whether it is reported. -/
theorem dispatch_unwatched (setup : Setup) (watch : Breakpoints) (m : Machine) :
    (m.dispatch setup watch).unwatched = (m.dispatch setup {}).unwatched := by
  unfold dispatch
  split
  · rfl
  · split
    · rfl
    · rename_i i _
      cases i with
      | globalGet index => exact globalGet_unwatched m _
      | globalSet index => exact globalSet_unwatched m _
      | load op arg => exact load_unwatched m op arg
      | store op arg => exact store_unwatched m op arg
      | _ => rfl

/-! ## The program left alone -/

/-- The machine after so many instructions with an empty registry. -/
def after? (setup : Setup) : Nat → Machine → Option Machine
  | 0, m => some m
  | k + 1, m => (m.dispatch setup {}).done?.bind (after? setup k)

/-- Left alone, `m` comes to `r`, and there the program ends with `trap` or goes on. -/
inductive Undisturbed (setup : Setup) (trap : Option Trap) (r : Machine) : Machine → Prop where
  | here (hp : trap.any Trap.isTerminal = false) : Undisturbed setup trap r r
  | ended {m : Machine} {t : Trap} (ht : trap = some t)
      (h : (m.dispatch setup {}).ended? = some (t, r)) : Undisturbed setup trap r m
  | next {m m₁ : Machine} (h : (m.dispatch setup {}).onward? = some m₁)
      (hrest : Undisturbed setup trap r m₁) : Undisturbed setup trap r m

variable {trap : Option Trap} {t : Trap} {r : Machine} {step : Step}

theorem after?_succ {k : Nat} {m₁ : Machine} (h : (m.dispatch setup {}).done? = some m₁) :
    after? setup (k + 1) m = after? setup k m₁ := by
  show (m.dispatch setup {}).done?.bind (after? setup k) = _
  rw [h]
  rfl

theorem done?_of_onward? (h : step.onward? = some m) : step.done? = some m := by
  cases step <;> cases h <;> rfl

theorem not_ended_of_onward? (h : step.onward? = some m) : step.ended? ≠ some (t, r) := by
  cases step <;> cases h <;> simp [Step.ended?]

theorem isTerminal_of_ended? (h : step.ended? = some (t, r)) : t.isTerminal = true := by
  cases step <;> cases h <;> rfl

/-- The instruction that ends the program is done, or it faults and is none. -/
theorem after?_of_ended (h : (m.dispatch setup {}).ended? = some (t, r)) :
    after? setup 1 m = some r ∨ r = m ∧ ∃ f, m.dispatch setup {} = .fault f m := by
  cases hd : m.dispatch setup {} with
  | finished _ =>
    rw [hd] at h
    cases h
    exact Or.inl (after?_succ (by rw [hd]; rfl))
  | fault f _ =>
    have hr := eq_of_dispatch_fault hd
    rw [hd] at h
    cases h
    exact Or.inr ⟨hr, f, by rw [hr]⟩
  | next _ | watched _ _ | threw _ _ =>
    rw [hd] at h
    cases h

theorem Undisturbed.after? (h : Undisturbed setup trap r m) :
    ∃ k, after? setup k m = some r := by
  induction h with
  | here _ => exact ⟨0, rfl⟩
  | ended _ h =>
    rcases after?_of_ended h with h | ⟨h, -⟩
    · exact ⟨1, h⟩
    · exact ⟨0, by rw [h]; rfl⟩
  | next h _ ih =>
    obtain ⟨k, hk⟩ := ih
    exact ⟨k + 1, (after?_succ (done?_of_onward? h)).trans hk⟩

/-- A program left alone ends in one way. -/
theorem Undisturbed.unique {t' : Trap} {r' : Machine} (h : Undisturbed setup (some t) r m)
    (ht : t.isTerminal = true) (h' : Undisturbed setup (some t') r' m)
    (ht' : t'.isTerminal = true) : t' = t ∧ r' = r := by
  induction h with
  | here hp => exact absurd ht (by simpa using hp)
  | ended he h =>
    cases he
    cases h' with
    | here hp => exact absurd ht' (by simpa using hp)
    | ended he' h' =>
      cases he'
      rw [h] at h'
      cases h'
      exact ⟨rfl, rfl⟩
    | next h' _ => exact absurd h (not_ended_of_onward? h')
  | next h _ ih =>
    cases h' with
    | here hp => exact absurd ht' (by simpa using hp)
    | ended _ h' => exact absurd h' (not_ended_of_onward? h)
    | next h' hrest =>
      rw [h] at h'
      cases h'
      exact ih hrest

/-- A stop on the way does not change where the program ends. -/
theorem Undisturbed.trans {trap' : Option Trap} {r' : Machine} (h : Undisturbed setup trap r m)
    (hp : trap.any Trap.isTerminal = false) (h' : Undisturbed setup trap' r' r) :
    Undisturbed setup trap' r' m := by
  induction h with
  | here _ => exact h'
  | ended ht h =>
    rw [ht, Option.any_some, isTerminal_of_ended? h] at hp
    exact absurd hp (by simp)
  | next h _ ih => exact .next h ih

/-! ### Under a registry -/

theorem onward?_dispatch (setup : Setup) (watch : Breakpoints) (m : Machine) :
    (m.dispatch setup watch).onward? = (m.dispatch setup {}).onward? := by
  have hu : ∀ step : Step, step.unwatched.onward? = step.onward? := by
    intro step
    cases step <;> rfl
  rw [← hu, dispatch_unwatched, hu]

theorem ended?_dispatch (setup : Setup) (watch : Breakpoints) (m : Machine) :
    (m.dispatch setup watch).ended? = (m.dispatch setup {}).ended? := by
  have hu : ∀ step : Step, step.unwatched.ended? = step.ended? := by
    intro step
    cases step <;> rfl
  rw [← hu, dispatch_unwatched, hu]

end Machine

namespace Execution

open Machine

variable {mode : Mode} {rule : StopRule} {fuel : Nat} {check : Bool} {m : Machine}
  {notices : List Notice} {trap : Option Trap} {e : Execution}

/-! ## Resuming -/

/-- One turn of the loop: a breakpoint stops it before the instruction; or it does what the
program left alone does, and the program ends, or the loop stops or goes on behind it. -/
theorem run_cases {result : Run} (hrun : run mode rule (fuel + 1) check m notices = result)
    (h : result.outcome = .stopped trap) :
    (check = true ∧ trap.any Trap.isTerminal = false ∧ result.execution.machine = m) ∨
      (∃ t, trap = some t ∧
        (m.dispatch mode.setup {}).ended? = some (t, result.execution.machine)) ∨
      ∃ m₁, (m.dispatch mode.setup {}).onward? = some m₁ ∧
        (trap.any Trap.isTerminal = false ∧ result.execution.machine = m₁ ∨
          ∃ notices', run mode rule fuel true m₁ notices' = result) := by
  rw [← onward?_dispatch mode.setup mode.watch, ← ended?_dispatch mode.setup mode.watch]
  unfold run at hrun
  split at hrun
  · rename_i index hstop
    subst hrun
    cases h
    cases check with
    | false => exact absurd hstop (by simp)
    | true => exact Or.inl ⟨rfl, rfl, rfl⟩
  · cases hd : m.dispatch mode.setup mode.watch with
    | next m₁ =>
      simp only [hd] at hrun
      refine Or.inr (Or.inr ⟨m₁, rfl, ?_⟩)
      split at hrun
      · subst hrun
        cases h
        exact Or.inl ⟨rfl, rfl⟩
      · exact Or.inr ⟨_, hrun⟩
    | watched index m₁ =>
      simp only [hd] at hrun
      subst hrun
      cases h
      exact Or.inr (Or.inr ⟨m₁, rfl, Or.inl ⟨rfl, rfl⟩⟩)
    | finished m₁ =>
      simp only [hd] at hrun
      subst hrun
      cases h
      exact Or.inr (Or.inl ⟨_, rfl, rfl⟩)
    | fault f m₁ =>
      simp only [hd] at hrun
      subst hrun
      cases h
      exact Or.inr (Or.inl ⟨_, rfl, rfl⟩)
    | threw message m₁ =>
      simp only [hd] at hrun
      subst hrun
      cases h

/-- A run stops where the program left alone comes to. -/
theorem run_undisturbed {result : Run} (hrun : run mode rule fuel check m notices = result)
    (h : result.outcome = .stopped trap) :
    Undisturbed mode.setup trap result.execution.machine m := by
  -- the bound falls with each turn; breakpoints are looked at from the second on
  induction fuel generalizing check m notices with
  | zero =>
    subst hrun
    cases h
  | succ fuel ih =>
    rcases run_cases hrun h with ⟨-, hp, hr⟩ | ⟨t, ht, hended⟩ | ⟨m₁, hm₁, ⟨hp, hr⟩ | ⟨_, hrest⟩⟩
    · rw [hr]
      exact .here hp
    · exact .ended ht hended
    · rw [hr]
      exact .next hm₁ (.here hp)
    · exact .next hm₁ (ih hrest)

/-- A resumption without a breakpoint before its first instruction carries that out. -/
theorem run_after {result : Run} (hrun : run mode rule fuel false m notices = result)
    (h : result.outcome = .stopped trap) :
    ∃ k, after? mode.setup k m = some result.execution.machine ∧
      (k = 0 → ∃ f, m.dispatch mode.setup {} = .fault f m) := by
  cases fuel with
  | zero =>
    subst hrun
    cases h
  | succ fuel =>
    rcases run_cases hrun h with ⟨hc, -, -⟩ | ⟨t, -, hended⟩ | ⟨m₁, hm₁, ⟨-, hr⟩ | ⟨_, hrest⟩⟩
    · exact absurd hc (by simp)
    · rcases after?_of_ended hended with hone | ⟨hr, hfault⟩
      · exact ⟨1, hone, fun h => absurd h (by simp)⟩
      · exact ⟨0, by rw [hr]; rfl, fun _ => hfault⟩
    · exact ⟨1, by rw [after?_succ (done?_of_onward? hm₁), hr]; rfl, fun h => absurd h (by simp)⟩
    · obtain ⟨k, hk⟩ := (run_undisturbed hrest h).after?
      exact ⟨k + 1, by rw [after?_succ (done?_of_onward? hm₁), hk], fun h => absurd h (by simp)⟩

/-- Resuming an execution with a frame is a run that looks at no breakpoint first. -/
theorem resume_of_frames (hf : e.machine.frames ≠ []) (fuel : Nat) (rule : StopRule) :
    e.resume mode fuel rule = run mode rule fuel false e.machine [] := by
  unfold resume
  split
  · rename_i hnil
    exact absurd hnil hf
  · rfl

theorem resumeBy_run (hf : e.machine.frames ≠ []) (how : Resumption) :
    ∃ rule fuel', e.resumeBy mode fuel how = run mode rule fuel' false e.machine [] := by
  cases how <;> exact ⟨_, _, resume_of_frames hf _ _⟩

/-- Without a frame every way to resume has finished. -/
theorem resumeBy_of_frames_nil (hf : e.machine.frames = []) (how : Resumption) :
    e.resumeBy mode fuel how = stop e.machine (some .finished) [] := by
  have hresume : ∀ fuel rule, e.resume mode fuel rule = stop e.machine (some .finished) [] := by
    intro fuel rule
    unfold resume
    rw [hf]
  cases how <;> exact hresume _ _

theorem resumeBy_undisturbed (how : Resumption)
    (h : (e.resumeBy mode fuel how).outcome = .stopped trap) :
    Undisturbed mode.setup trap (e.resumeBy mode fuel how).execution.machine e.machine := by
  by_cases hf : e.machine.frames = []
  · rw [resumeBy_of_frames_nil hf] at h ⊢
    cases h
    refine .ended rfl ?_
    unfold dispatch
    rw [hf]
    rfl
  · obtain ⟨rule, fuel', hrun⟩ := resumeBy_run hf how
    exact run_undisturbed hrun.symm h

/-- Resuming again and again, each time in any way and with any registry, until the program has
ended with `trap` in `m`. -/
inductive EndsAt (setup : Setup) (trap : Trap) (m : Machine) : Execution → Prop where
  | last {e : Execution} {tracing : Bool} {watch : Breakpoints} {fuel : Nat} {how : Resumption}
      (h : (e.resumeBy ⟨setup, tracing, watch⟩ fuel how).outcome = .stopped (some trap))
      (ht : trap.isTerminal = true)
      (hm : (e.resumeBy ⟨setup, tracing, watch⟩ fuel how).execution.machine = m) :
      EndsAt setup trap m e
  | more {e : Execution} {tracing : Bool} {watch : Breakpoints} {fuel : Nat} {how : Resumption}
      {stop : Option Trap}
      (h : (e.resumeBy ⟨setup, tracing, watch⟩ fuel how).outcome = .stopped stop)
      (hp : stop.any Trap.isTerminal = false)
      (hrest : EndsAt setup trap m (e.resumeBy ⟨setup, tracing, watch⟩ fuel how).execution) :
      EndsAt setup trap m e

theorem EndsAt.undisturbed {setup : Setup} {t : Trap} (h : EndsAt setup t m e) :
    t.isTerminal = true ∧ Undisturbed setup (some t) m e.machine := by
  induction h with
  | last h ht hm => exact ⟨ht, hm ▸ resumeBy_undisturbed _ h⟩
  | more h hp _ ih => exact ⟨ih.1, (resumeBy_undisturbed _ h).trans hp ih.2⟩

/-- **Debugging is transparent.** From any machine with a frame, so from every reachable one:

* a resumption that returns has carried out some number of instructions of the program left
  alone, and at least one unless the very first faults;
* if the program left alone ends, then every sequence of resumptions, with changes to the
  registry in between, that comes to an end comes to that same end. -/
theorem debugging_transparent {setup : Setup} (hf : e.machine.frames ≠ []) :
    (∀ tracing watch fuel how trap,
      (e.resumeBy ⟨setup, tracing, watch⟩ fuel how).outcome = .stopped trap →
      ∃ k, after? setup k e.machine =
          some (e.resumeBy ⟨setup, tracing, watch⟩ fuel how).execution.machine ∧
        (k = 0 → ∃ f, e.machine.dispatch setup {} = .fault f e.machine)) ∧
    (∀ tracing fuel trap, (e.proceed ⟨setup, tracing, {}⟩ fuel).outcome = .stopped (some trap) →
      trap.isTerminal = true → ∀ trap' m', EndsAt setup trap' m' e →
      trap' = trap ∧ m' = (e.proceed ⟨setup, tracing, {}⟩ fuel).execution.machine) := by
  refine ⟨fun tracing watch fuel how trap h => ?_, fun tracing fuel trap h ht trap' m' hends => ?_⟩
  · obtain ⟨rule, fuel', hrun⟩ := resumeBy_run hf how
    exact run_after hrun.symm h
  · obtain ⟨ht', hleft'⟩ := hends.undisturbed
    have hleft := resumeBy_undisturbed .proceed h
    exact hleft.unique ht hleft' ht'

/-- A function that assigns to a global. -/
def assigning : Setup where
  module :=
    { types := #[⟨[], []⟩]
      functions := #[.defined 0 [] #[.const (.i32 7), .globalSet 0, .nop, .blockEnd]]
      globals := #[⟨.i32, true, .init (.const (.i32 0))⟩] }
  limits := {}
  bridge := .unavailable

/-- It, about to begin. -/
def beginning : Execution where
  machine :=
    { ip := ⟨0, 0⟩
      stack := .empty 8
      frames := [⟨0, #[], ⟨0, 0⟩, 0, []⟩]
      globals := #[.i32 0]
      memories := #[]
      tables := #[] }
  status := .paused

/-- A breakpoint on the assignment, then a watchpoint on the global in its place. -/
theorem debugging_transparent_interrupted :
    (∃ k, after? assigning k beginning.machine =
        some (beginning.proceed ⟨assigning, false, ⟨[(0, .code ⟨0, 1⟩)], 1⟩⟩ 9).execution.machine ∧
      (k = 0 → ∃ f, beginning.machine.dispatch assigning {} = .fault f beginning.machine)) ∧
    EndsAt assigning .finished
      (beginning.proceed ⟨assigning, true, {}⟩ 9).execution.machine beginning ∧
    (beginning.proceed ⟨assigning, true, {}⟩ 9).execution.machine =
      (beginning.proceed ⟨assigning, false, {}⟩ 9).execution.machine := by
  obtain ⟨hstep, hend⟩ :=
    debugging_transparent (show beginning.machine.frames ≠ [] by decide)
  have hsequence : EndsAt assigning .finished
      (beginning.proceed ⟨assigning, true, {}⟩ 9).execution.machine beginning := by
    refine .more (show (beginning.resumeBy ⟨assigning, false, ⟨[(0, .code ⟨0, 1⟩)], 1⟩⟩ 9
      .proceed).outcome = .stopped (some (.breakpoint 0)) from rfl) rfl ?_
    refine .more (show (Execution.resumeBy ⟨assigning, true, ⟨[(1, .global .write 0)], 2⟩⟩ 9 _
      .stepOver).outcome = .stopped (some (.watchpoint 1)) from rfl) rfl ?_
    exact .last (show (Execution.resumeBy ⟨assigning, false, {}⟩ 9 _
      .stepOut).outcome = .stopped (some .finished) from rfl) rfl rfl
  exact ⟨hstep false ⟨[(0, .code ⟨0, 1⟩)], 1⟩ 9 .proceed _ rfl, hsequence,
    (hend false 9 .finished rfl rfl _ _ hsequence).2⟩

end Execution

end WasmDebugger
