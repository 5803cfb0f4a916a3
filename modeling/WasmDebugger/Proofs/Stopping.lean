import WasmDebugger.Proofs.Isolation
import WasmDebugger.Proofs.Registry
import WasmDebugger.Proofs.Transparency

/-!
# Where execution stops

All operations carry out instructions one by one, and differ in what makes them stop.

* `Machine.afterSteps`: the machines on the way.
* `Halts`: the reasons to stop behind an instruction, for an operation with a `goal`. A trap comes
  before the goal, and the goal before a breakpoint.
* `Ends`: how an operation ends, given a bound that is large enough.
* `Obeys`: an operation ends at the first reason, and never when there is none.
* **`stops_at_first_reason`**: every operation obeys, each with a goal of its own.
-/

namespace WasmDebugger

/-- The trap that an instruction raised. -/
def Step.trap? : Step → Option Trap
  | .watched index _ => some (.watchpoint index)
  | .finished _ => some .finished
  | .fault f _ => some (.fault f)
  | .next _ | .threw _ _ => none

/-- Breakpoints are looked up between instructions, so none is raised by one. -/
theorem Step.trap?_ne_breakpoint (step : Step) (index : UInt32) :
    step.trap? ≠ some (.breakpoint index) := by
  cases step <;> simp [trap?]

namespace Machine

variable {setup : Setup} {watch : Breakpoints}

/-- The machine after so many instructions, whatever each of them came to. -/
def afterSteps (setup : Setup) (watch : Breakpoints) : Nat → Machine → Machine
  | 0, m => m
  | k + 1, m => afterSteps setup watch k (m.dispatch setup watch).machine

theorem afterSteps_succ (k : Nat) (m : Machine) :
    afterSteps setup watch (k + 1) m =
      ((afterSteps setup watch k m).dispatch setup watch).machine := by
  induction k generalizing m with
  | zero => rfl
  | succ k ih => exact ih (m.dispatch setup watch).machine

theorem afterSteps_of_next {m m₁ : Machine} (h : m.dispatch setup watch = .next m₁) (k : Nat) :
    afterSteps setup watch (k + 1) m = afterSteps setup watch k m₁ := by
  show afterSteps setup watch k (m.dispatch setup watch).machine = _
  rw [h]
  rfl

/-- No instruction takes off more than one frame. -/
theorem depth_le_dispatch (setup : Setup) (watch : Breakpoints) (m : Machine) :
    m.depth ≤ (m.dispatch setup watch).machine.depth + 1 := by
  rcases dispatch_cases setup watch m with ⟨-, h⟩ | ⟨-, h⟩ | ⟨frame, callers, i, hf, -, he⟩
  · rw [h]
    exact Nat.le_succ _
  · rw [h]
    exact Nat.le_succ _
  · have hdepth : m.depth = callers.length + 1 := by
      unfold depth
      rw [hf]
      rfl
    generalize m.dispatch setup watch = step at he
    cases he with
    | fault _ | threw _ _ _ => exact Nat.le_succ _
    | inside hstep _ hframes _ _ _ _ _ =>
      rw [machine_of_onward? hstep, hdepth]
      unfold depth
      rw [hframes]
      exact Nat.le_succ _
    | branched _ _ _ _ =>
      rw [hdepth]
      exact Nat.le_succ _
    | entered _ _ _ _ _ _ _ => exact Nat.le_succ_of_le (Nat.le_succ _)
    | returned _ _ _ _ _ =>
      rw [hdepth]
      exact Nat.le_refl _
    | finished _ hc _ _ _ =>
      rw [hdepth, hc]
      exact Nat.le_refl _

end Machine

/-- Where each way to resume is to stop without a trap, when it starts at some depth. -/
def Resumption.goal (depth : Nat) : Resumption → Machine → Prop
  | .proceed, _ => False
  | .step, _ => True
  | .stepOver, m => m.depth ≤ depth
  | .stepOut, m => m.depth < depth

namespace Execution

open Machine

variable {mode : Mode} {goal : Machine → Prop} {rule : StopRule} {m : Machine} {k : Nat}
  {outcome : Outcome} {notices : List Notice} {e : Execution}

/-! ## Reasons to stop -/

/-- What the instruction behind the first `k` comes to. -/
def stepAfter (mode : Mode) (m : Machine) (k : Nat) : Step :=
  (m.afterSteps mode.setup mode.watch k).dispatch mode.setup mode.watch

/-- **The reasons to stop** behind the `k`-th instruction from `m` on, counted from one. -/
inductive Halts (mode : Mode) (goal : Machine → Prop) (m : Machine) : Nat → Outcome → Prop where
  | trapped {k t} (h : (stepAfter mode m k).trap? = some t) :
      Halts mode goal m (k + 1) (.stopped (some t))
  /-- The host has ended in an exception, which ends the operation too. -/
  | threw {k message m'} (h : stepAfter mode m k = .threw message m') :
      Halts mode goal m (k + 1) (.threw message)
  | arrived {k m'} (h : stepAfter mode m k = .next m') (hg : goal m') :
      Halts mode goal m (k + 1) (.stopped none)
  | breakpoint {k m' index} (h : stepAfter mode m k = .next m') (hg : ¬ goal m')
      (hb : mode.watch.Lowest m'.ip index) :
      Halts mode goal m (k + 1) (.stopped (some (.breakpoint index)))

/-- The second instruction of a machine is the first of the next. -/
theorem halts_succ_iff : Halts mode goal m (k + 2) outcome ↔
    Halts mode goal (m.dispatch mode.setup mode.watch).machine (k + 1) outcome := by
  constructor
  all_goals
    intro h
    cases h with
    | trapped h => exact .trapped h
    | threw h => exact .threw h
    | arrived h hg => exact .arrived h hg
    | breakpoint h hg hb => exact .breakpoint h hg hb

theorem halts_of_next {m₁ : Machine} (hd : m.dispatch mode.setup mode.watch = .next m₁)
    (h : Halts mode goal m₁ k outcome) : Halts mode goal m (k + 1) outcome := by
  cases k with
  | zero => cases h
  | succ k =>
    rw [halts_succ_iff, hd]
    exact h

/-- Without a reason execution goes on. -/
theorem next_of_not_halts (hw : mode.watch.Built) (h : ∀ outcome, ¬ Halts mode goal m 1 outcome) :
    ∃ m₁, m.dispatch mode.setup mode.watch = .next m₁ ∧ ¬ goal m₁ ∧
      mode.watch.findCode m₁.ip = none := by
  have htrap : (stepAfter mode m 0).trap? = none :=
    Option.eq_none_iff_forall_ne_some.mpr fun t ht => h _ (.trapped ht)
  have hthrew : ∀ message m', stepAfter mode m 0 ≠ .threw message m' :=
    fun message m' hm => h _ (.threw hm)
  cases hd : stepAfter mode m 0 with
  | next m₁ =>
    have hgoal : ¬ goal m₁ := fun hg => h _ (.arrived hd hg)
    refine ⟨m₁, hd, hgoal, ?_⟩
    rw [Breakpoints.findCode_eq_none_iff hw]
    exact fun index hb => h _ (.breakpoint hd hgoal hb)
  | threw message m' => exact absurd hd (hthrew message m')
  | watched _ _ | finished _ | fault _ _ =>
    rw [hd] at htrap
    exact absurd htrap (by simp [Step.trap?])

theorem not_halts_of_next {m' : Machine} (hw : mode.watch.Built)
    (hd : stepAfter mode m k = .next m') (hg : ¬ goal m')
    (hb : mode.watch.findCode m'.ip = none) : ¬ Halts mode goal m (k + 1) outcome := by
  intro h
  cases h with
  | trapped h =>
    rw [hd] at h
    exact absurd h (by simp [Step.trap?])
  | threw h =>
    rw [hd] at h
    cases h
  | arrived h hg' =>
    rw [hd] at h
    cases h
    exact hg hg'
  | breakpoint h _ hb' =>
    rw [hd] at h
    cases h
    exact (Breakpoints.findCode_eq_none_iff hw).mp hb _ hb'

/-! ## One turn of the loop -/

/-- Without a breakpoint at the position it does not matter whether one is looked for. -/
theorem run_check (h : mode.watch.findCode m.ip = none) (fuel : Nat) :
    run mode rule fuel true m notices = run mode rule fuel false m notices := by
  cases fuel with
  | zero => rfl
  | succ fuel =>
    unfold run
    simp only [if_true, h, Bool.false_eq_true, if_false]

theorem run_breakpoint {index : UInt32} (h : mode.watch.findCode m.ip = some index)
    (fuel : Nat) : run mode rule (fuel + 1) true m notices =
      stop m (some (.breakpoint index)) notices := by
  unfold run
  simp only [if_true, h]

theorem run_next {m₁ : Machine} (h : m.dispatch mode.setup mode.watch = .next m₁)
    (hr : rule.holds m₁ = false) (notices : List Notice) :
    ∃ notices', ∀ fuel,
      run mode rule (fuel + 1) false m notices = run mode rule fuel true m₁ notices' := by
  refine ⟨traceNotices mode.setup mode.tracing m ++ notices, fun fuel => ?_⟩
  conv_lhs => unfold run
  simp only [Bool.false_eq_true, if_false, h, hr]

/-- A reason that the instruction itself gives ends the run at once. -/
theorem run_stops (hgoal : ∀ m, goal m ↔ rule.holds m = true) (h : Halts mode goal m 1 outcome)
    (hb : ∀ index, outcome ≠ .stopped (some (.breakpoint index))) (fuel : Nat) :
    (run mode rule (fuel + 1) false m notices).outcome = outcome ∧
      (run mode rule (fuel + 1) false m notices).execution.machine =
        m.afterSteps mode.setup mode.watch 1 := by
  have hafter : m.afterSteps mode.setup mode.watch 1 =
      (m.dispatch mode.setup mode.watch).machine := rfl
  rw [hafter]
  unfold run
  simp only [Bool.false_eq_true, if_false]
  cases h with
  | trapped h =>
    change (m.dispatch mode.setup mode.watch).trap? = _ at h
    generalize m.dispatch mode.setup mode.watch = step at h
    cases step <;> cases h <;> exact ⟨rfl, rfl⟩
  | threw h =>
    rw [show m.dispatch mode.setup mode.watch = _ from h]
    exact ⟨rfl, rfl⟩
  | @arrived _ m₁ h hg =>
    rw [show m.dispatch mode.setup mode.watch = .next m₁ from h]
    simp only [(hgoal m₁).mp hg, if_true]
    exact ⟨rfl, rfl⟩
  | breakpoint _ _ _ => exact absurd rfl (hb _)

/-! ## Ends -/

/-- With a bound of `n` instructions or more the operation ends so, and with a lower one it does
not end. -/
def EndsWithin (n : Nat) (op : Nat → Run) (outcome : Outcome) (m : Machine) : Prop :=
  (∀ fuel < n, (op fuel).outcome = .unfinished) ∧
    ∀ fuel ≥ n, (op fuel).outcome = outcome ∧ (op fuel).execution.machine = m

/-- The operation ends so, however large the bound is. -/
def Ends (op : Nat → Run) (outcome : Outcome) (m : Machine) : Prop :=
  ∃ n, EndsWithin n op outcome m

/-- **From `m` on the operation ends at the first reason**, and never when there is none. -/
structure Obeys (op : Nat → Run) (mode : Mode) (goal : Machine → Prop) (m : Machine) : Prop where
  ends : ∀ k outcome, Halts mode goal m k outcome →
    (∀ j < k, ∀ outcome', ¬ Halts mode goal m j outcome') →
    Ends op outcome (m.afterSteps mode.setup mode.watch k)
  diverges : (∀ k outcome, ¬ Halts mode goal m k outcome) →
    ∀ fuel, (op fuel).outcome = .unfinished

theorem endsWithin_breakpoint {index : UInt32} (h : mode.watch.findCode m.ip = some index)
    (notices : List Notice) :
    EndsWithin 1 (run mode rule · true m notices) (.stopped (some (.breakpoint index))) m := by
  refine ⟨fun fuel hlt => ?_, fun fuel hge => ?_⟩
  · have : fuel = 0 := by omega
    subst this
    rfl
  · obtain ⟨fuel, rfl⟩ := Nat.exists_eq_add_of_le' hge
    simp only [run_breakpoint h]
    exact ⟨rfl, rfl⟩

/-- One more instruction needs a bound that is higher by one. -/
theorem EndsWithin.next {n : Nat} {m₁ m' : Machine}
    (h : ∀ notices, EndsWithin n (run mode rule · true m₁ notices) outcome m')
    (hd : m.dispatch mode.setup mode.watch = .next m₁) (hr : rule.holds m₁ = false)
    (notices : List Notice) :
    EndsWithin (n + 1) (run mode rule · false m notices) outcome m' := by
  obtain ⟨notices', hnext⟩ := run_next hd hr notices
  refine ⟨fun fuel hlt => ?_, fun fuel hge => ?_⟩
  · cases fuel with
    | zero => rfl
    | succ fuel =>
      simp only [hnext]
      exact (h notices').1 fuel (by omega)
  · cases fuel with
    | zero => omega
    | succ fuel =>
      simp only [hnext]
      exact (h notices').2 fuel (by omega)

/-- **A run ends at the first reason.** -/
theorem run_ends (hw : mode.watch.Built) (hgoal : ∀ m, goal m ↔ rule.holds m = true)
    (h : Halts mode goal m (k + 1) outcome)
    (hfirst : ∀ j < k + 1, ∀ outcome', ¬ Halts mode goal m j outcome') :
    ∃ n, ∀ notices, EndsWithin n (run mode rule · false m notices) outcome
      (m.afterSteps mode.setup mode.watch (k + 1)) := by
  -- instruction by instruction; a breakpoint is found at the start of the next turn
  induction k generalizing m with
  | zero =>
    by_cases hb : ∃ index, outcome = .stopped (some (.breakpoint index))
    · obtain ⟨index, rfl⟩ := hb
      cases h with
      | trapped h => exact absurd h (Step.trap?_ne_breakpoint _ _)
      | @breakpoint _ m₁ _ h hg hb =>
        have hd : m.dispatch mode.setup mode.watch = .next m₁ := h
        have hr : rule.holds m₁ = false := by simpa [hgoal] using hg
        have hfound := (Breakpoints.findCode_eq_some_iff hw).mpr hb
        rw [afterSteps_of_next hd]
        exact ⟨2, EndsWithin.next (endsWithin_breakpoint hfound) hd hr⟩
    · refine ⟨1, fun notices => ⟨fun fuel hlt => ?_, fun fuel hge => ?_⟩⟩
      · have : fuel = 0 := by omega
        subst this
        rfl
      · obtain ⟨fuel, rfl⟩ := Nat.exists_eq_add_of_le' hge
        exact run_stops hgoal h (fun index he => hb ⟨index, he⟩) fuel
  | succ k ih =>
    obtain ⟨m₁, hd, hg, hnone⟩ := next_of_not_halts hw (hfirst 1 (by omega))
    have hr : rule.holds m₁ = false := by simpa [hgoal] using hg
    rw [halts_succ_iff, hd] at h
    obtain ⟨n, hn⟩ := ih h fun j hj outcome' hh =>
      hfirst (j + 1) (by omega) outcome' (halts_of_next hd hh)
    rw [afterSteps_of_next hd]
    refine ⟨n + 1, EndsWithin.next (fun notices => ?_) hd hr⟩
    simp only [run_check hnone]
    exact hn notices

/-- **Without a reason a run does not end.** -/
theorem run_diverges (hw : mode.watch.Built) (hgoal : ∀ m, goal m ↔ rule.holds m = true)
    (h : ∀ k outcome, ¬ Halts mode goal m k outcome) (fuel : Nat) (notices : List Notice) :
    (run mode rule fuel false m notices).outcome = .unfinished := by
  induction fuel generalizing m notices with
  | zero => rfl
  | succ fuel ih =>
    obtain ⟨m₁, hd, hg, hnone⟩ := next_of_not_halts hw (h 1)
    have hr : rule.holds m₁ = false := by simpa [hgoal] using hg
    obtain ⟨notices', hnext⟩ := run_next hd hr notices
    rw [hnext, run_check hnone]
    exact ih (fun k outcome hh => h (k + 1) outcome (halts_of_next hd hh)) notices'

theorem run_obeys (hw : mode.watch.Built) (hgoal : ∀ m, goal m ↔ rule.holds m = true) :
    Obeys (run mode rule · false m []) mode goal m where
  ends k outcome h hfirst := by
    cases k with
    | zero => cases h
    | succ k =>
      obtain ⟨n, hn⟩ := run_ends hw hgoal h hfirst
      exact ⟨n, hn []⟩
  diverges h fuel := run_diverges hw hgoal h fuel []

/-! ## The operations -/

/-- Every instruction is a reason for a single step. -/
theorem halts_step (mode : Mode) (m : Machine) (depth : Nat) :
    ∃ outcome, Halts mode (Resumption.step.goal depth) m 1 outcome ∧
      ∀ index, outcome ≠ .stopped (some (.breakpoint index)) := by
  cases hd : stepAfter mode m 0 with
  | next m₁ => exact ⟨_, .arrived hd trivial, by simp⟩
  | threw message m' => exact ⟨_, .threw hd, by simp⟩
  | watched index m' =>
    exact ⟨.stopped (some (.watchpoint index)), .trapped (by rw [hd]; rfl), by simp⟩
  | finished m' => exact ⟨.stopped (some .finished), .trapped (by rw [hd]; rfl), by simp⟩
  | fault f m' => exact ⟨.stopped (some (.fault f)), .trapped (by rw [hd]; rfl), by simp⟩

/-- A single step obeys, and it needs no bound. -/
theorem step_obeys (m : Machine) (depth : Nat) :
    Obeys (fun _ => run mode .always 1 false m []) mode (Resumption.step.goal depth) m where
  ends k outcome h hfirst := by
    obtain ⟨outcome', h', hb⟩ := halts_step mode m depth
    cases k with
    | zero => cases h
    | succ k =>
      cases k with
      | zero =>
        have hb : ∀ index, outcome ≠ .stopped (some (.breakpoint index)) := by
          rintro index rfl
          cases h with
          | trapped h => exact Step.trap?_ne_breakpoint _ _ h
          | breakpoint _ hg _ => exact hg trivial
        refine ⟨0, fun _ hlt => absurd hlt (Nat.not_lt_zero _), fun _ _ => ?_⟩
        exact run_stops (fun _ => iff_of_true trivial rfl) h hb 0
      | succ k => exact absurd h' (hfirst 1 (by omega) outcome')
  diverges h := by
    obtain ⟨outcome, h', -⟩ := halts_step mode m depth
    exact absurd h' (h 1 outcome)

/-- **Every way to resume obeys**, each with its goal. -/
theorem resumeBy_obeys (hw : mode.watch.Built) (hf : e.machine.frames ≠ []) (how : Resumption) :
    Obeys (e.resumeBy mode · how) mode (how.goal e.machine.depth) e.machine := by
  have hresume : ∀ fuel rule, e.resume mode fuel rule = run mode rule fuel false e.machine [] :=
    resume_of_frames hf
  have hpos : 0 < e.machine.depth := List.length_pos_iff.mpr hf
  cases how with
  | proceed =>
    have heq : (e.resumeBy mode · .proceed) = (run mode .never · false e.machine []) :=
      funext fun fuel => hresume fuel _
    rw [heq]
    exact run_obeys hw fun m => iff_of_false id (by simp [StopRule.holds])
  | step =>
    have heq : (e.resumeBy mode · .step) = fun _ => run mode .always 1 false e.machine [] :=
      funext fun _ => hresume 1 _
    rw [heq]
    exact step_obeys e.machine _
  | stepOver =>
    have heq : (e.resumeBy mode · .stepOver) =
        (run mode (.atDepth e.machine.depth) · false e.machine []) :=
      funext fun fuel => hresume fuel _
    rw [heq]
    exact run_obeys hw fun m => by simp [StopRule.holds, Resumption.goal]
  | stepOut =>
    have heq : (e.resumeBy mode · .stepOut) =
        (run mode (.atDepth (e.machine.depth - 1)) · false e.machine []) :=
      funext fun fuel => hresume fuel _
    rw [heq]
    refine run_obeys hw fun m => ?_
    simp only [StopRule.holds, Resumption.goal, decide_eq_true_eq]
    omega

/-- As long as there is no reason to stop, stepping out stays as deep as it began. -/
theorem le_depth_of_not_halts {depth : Nat} (hw : mode.watch.Built)
    (h : ∀ j < k + 1, ∀ outcome, ¬ Halts mode (Resumption.stepOut.goal depth) m j outcome)
    (hd : depth ≤ m.depth) : depth ≤ (m.afterSteps mode.setup mode.watch k).depth := by
  induction k generalizing m with
  | zero => exact hd
  | succ k ih =>
    obtain ⟨m₁, hm₁, hg, -⟩ := next_of_not_halts hw (h 1 (by omega))
    rw [afterSteps_of_next hm₁]
    exact ih (fun j hj outcome hh => h (j + 1) (by omega) outcome (halts_of_next hm₁ hh))
      (Nat.le_of_not_lt hg)

/-- Where stepping out stops without a trap, it is one frame further out. -/
theorem depth_of_stepOut (hw : mode.watch.Built)
    (h : Halts mode (Resumption.stepOut.goal m.depth) m k (.stopped none))
    (hfirst : ∀ j < k, ∀ outcome, ¬ Halts mode (Resumption.stepOut.goal m.depth) m j outcome) :
    (m.afterSteps mode.setup mode.watch k).depth + 1 = m.depth := by
  cases h with
  | @arrived k m' h hg =>
    have hbefore := le_depth_of_not_halts hw hfirst (Nat.le_refl _)
    have hlast : m.afterSteps mode.setup mode.watch (k + 1) = m' := by
      rw [afterSteps_succ]
      exact congrArg Step.machine h
    have hstep := depth_le_dispatch mode.setup mode.watch
      (m.afterSteps mode.setup mode.watch k)
    rw [← afterSteps_succ, hlast] at hstep
    have hlt : m'.depth < m.depth := hg
    rw [hlast]
    omega

/-- **An operation that enters a function first**: a breakpoint there stops it before the first
instruction, and otherwise it goes on to the next trap or breakpoint. Where nothing was entered it
has ended. -/
structure Enters (op : Nat → Run) (mode : Mode) (entry : Step) : Prop where
  atOnce : ∀ m index, entry = .next m → mode.watch.Lowest m.ip index →
    Ends op (.stopped (some (.breakpoint index))) m
  onward : ∀ m, entry = .next m → (∀ index, ¬ mode.watch.Lowest m.ip index) →
    Obeys op mode (Resumption.proceed.goal m.depth) m
  trapped : ∀ t, entry.trap? = some t → Ends op (.stopped (some t)) entry.machine
  threw : ∀ message m, entry = .threw message m → Ends op (.threw message) m

theorem runEntry_enters (hw : mode.watch.Built) (f : Nat) (args : List Value) (m : Machine) :
    Enters (runEntry mode · f args m) mode (enterEntry mode.setup f args m) := by
  have hends : ∀ {outcome m'}, (∀ fuel, (runEntry mode fuel f args m).outcome = outcome ∧
      (runEntry mode fuel f args m).execution.machine = m') →
      Ends (runEntry mode · f args m) outcome m' := fun h =>
    ⟨0, fun _ hlt => absurd hlt (Nat.not_lt_zero _), fun fuel _ => h fuel⟩
  have hrun : ∀ {m₁}, enterEntry mode.setup f args m = .next m₁ →
      (runEntry mode · f args m) = (run mode .never · true m₁ []) := by
    intro m₁ h
    funext fuel
    unfold runEntry
    rw [h]
  refine ⟨fun m₁ index h hb => ?_, fun m₁ h hb => ?_, fun t h => ?_, fun message m' h => ?_⟩
  · have hfound := (Breakpoints.findCode_eq_some_iff hw).mpr hb
    rw [hrun h]
    exact ⟨1, endsWithin_breakpoint hfound []⟩
  · have hnone := (Breakpoints.findCode_eq_none_iff hw).mpr hb
    have heq : (run mode .never · true m₁ []) = (run mode .never · false m₁ []) :=
      funext fun fuel => run_check hnone fuel
    rw [hrun h, heq]
    exact run_obeys hw fun m => iff_of_false id (by simp [StopRule.holds])
  · refine hends fun fuel => ?_
    unfold runEntry
    generalize enterEntry mode.setup f args m = entry at h
    cases entry <;> cases h <;> exact ⟨rfl, rfl⟩
  · refine hends fun fuel => ?_
    unfold runEntry
    rw [h]
    exact ⟨rfl, rfl⟩

/-- **Where execution stops.** With any registry, and from any machine:

* every way to resume an execution with a frame stops behind the first instruction, counted from
  one, that raises a trap, reaches the goal, or comes to a breakpoint, the lowest of which is then
  reported; where there is no such instruction it does not end;
* a single step is over after one instruction, and reports no breakpoint;
* where stepping out stops without a trap, there is exactly one frame less;
* starting and calling enter their function, look for a breakpoint there, and go on like
  proceeding. -/
theorem stops_at_first_reason (hw : mode.watch.Built) (e : Execution) :
    (e.machine.frames ≠ [] →
      (∀ how, Obeys (e.resumeBy mode · how) mode (how.goal e.machine.depth) e.machine) ∧
      (∃ outcome, Halts mode (Resumption.step.goal e.machine.depth) e.machine 1 outcome) ∧
      (∀ index, (e.step mode).outcome ≠ .stopped (some (.breakpoint index))) ∧
      ∀ k, Halts mode (Resumption.stepOut.goal e.machine.depth) e.machine k (.stopped none) →
        (∀ j < k, ∀ outcome,
          ¬ Halts mode (Resumption.stepOut.goal e.machine.depth) e.machine j outcome) →
        (e.machine.afterSteps mode.setup mode.watch k).depth + 1 = e.machine.depth) ∧
    (∀ f, mode.setup.module.entryPoint? = some f →
      Enters (e.start mode ·) mode (enterEntry mode.setup f.toNat
        (zeroArgs mode.setup.module f.toNat) e.machine)) ∧
    ∀ f args, callError? mode.setup.module f args = none →
      ∃ op, (∀ fuel, e.call mode fuel f args = .ok (op fuel)) ∧
        Enters op mode (enterEntry mode.setup f args e.machine) := by
  refine ⟨fun hf => ⟨resumeBy_obeys hw hf, ?_, fun index => ?_, fun k => depth_of_stepOut hw⟩,
    fun f hentry => ?_, fun f args hc => ?_⟩
  · obtain ⟨outcome, h, -⟩ := halts_step mode e.machine e.machine.depth
    exact ⟨outcome, h⟩
  · obtain ⟨outcome, h, hb⟩ := halts_step mode e.machine e.machine.depth
    have hstep : e.step mode = run mode .always 1 false e.machine [] := resume_of_frames hf 1 _
    rw [hstep, (run_stops (fun _ => iff_of_true trivial rfl) h hb 0).1]
    exact hb index
  · have heq : (e.start mode ·) = (runEntry mode · f.toNat
        (zeroArgs mode.setup.module f.toNat) e.machine) := by
      funext fuel
      unfold start
      rw [hentry]
    rw [heq]
    exact runEntry_enters hw _ _ _
  · refine ⟨(runEntry mode · f args e.machine), fun fuel => ?_, runEntry_enters hw _ _ _⟩
    unfold call
    rw [hc]

/-- A call, with a breakpoint in the function that it enters. -/
def atCall : Execution := ⟨firstCall littering 2, .paused⟩

def watchingCallee : Mode := ⟨littering, false, (Breakpoints.add {} (.code ⟨1, 1⟩)).2⟩

/-- Stepping over the call stops at the breakpoint, two instructions on and one frame deeper. -/
theorem stops_at_first_reason_inside :
    watchingCallee.watch.Built ∧ atCall.machine.frames ≠ [] ∧
      Ends (atCall.resumeBy watchingCallee · .stepOver) (.stopped (some (.breakpoint 0)))
        (atCall.machine.afterSteps littering watchingCallee.watch 2) ∧
      (atCall.machine.afterSteps littering watchingCallee.watch 2).ip = ⟨1, 1⟩ := by
  have hw : watchingCallee.watch.Built := .added _ .empty
  have hf : atCall.machine.frames ≠ [] := by decide
  refine ⟨hw, hf, (((stops_at_first_reason hw atCall).1 hf).1 .stepOver).ends 2 _ ?_ ?_, rfl⟩
  · refine .breakpoint (show stepAfter watchingCallee atCall.machine 1 = .next _ from rfl) ?_ ?_
    · exact (by decide : ¬ (2 ≤ 1))
    · exact (Breakpoints.findCode_eq_some_iff hw).mp rfl
  · intro j hj outcome
    have hd : stepAfter watchingCallee atCall.machine 0 = .next (firstCall littering 3) := rfl
    match j, hj with
    | 0, _ => exact fun h => nomatch h
    | 1, _ => exact not_halts_of_next hw hd (by decide : ¬ (2 ≤ 1)) rfl

end Execution

end WasmDebugger
