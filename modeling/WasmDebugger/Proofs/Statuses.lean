import WasmDebugger.Proofs.Faults
import WasmDebugger.Proofs.FrameChain

/-!
# What a status says of the machine

The status of an execution is set when an operation stops, and says nothing by itself about the
frames, which decide what the next operation does. The two agree all the same.

* `Step.Framed`: what goes on has a frame, and what has finished has none. Entering a function and
  every instruction are so.
* `Undisturbed.last`: a run stops at a machine on its way, or behind the instruction that ends it.
* `Fits`: a status and the frames that it promises.
* **`statuses_fit`**: they fit after every sequence of operations that return, and an execution that
  is finished or new can only be told so again.
-/

namespace WasmDebugger

/-- What goes on has a frame, and what has finished has none. -/
structure Step.Framed (step : Step) : Prop where
  onward : ∀ m, step.onward? = some m → m.frames ≠ []
  finished : ∀ m, step = .finished m → m.frames = []

namespace Machine

open Execution (enterEntry)

variable {setup : Setup} {watch : Breakpoints} {m r : Machine} {trap : Option Trap}

/-! ## Frames of a step -/

theorem framed_fault (f : Fault) (m : Machine) : (Step.fault f m).Framed := ⟨nofun, nofun⟩

theorem framed_threw (message : String) (m : Machine) : (Step.threw message m).Framed :=
  ⟨nofun, nofun⟩

theorem framed_next (h : m.frames ≠ []) : (Step.next m).Framed := by
  refine ⟨fun m' hm => ?_, nofun⟩
  cases hm
  exact h

theorem framed_finished (h : m.frames = []) : (Step.finished m).Framed := by
  refine ⟨nofun, fun m' hm => ?_⟩
  cases hm
  exact h

theorem Effect.framed {frame : Frame} {callers : List Frame} {i : Instr} {step : Step}
    (he : Effect setup m frame callers i step) : step.Framed := by
  cases he with
  | fault f => exact framed_fault f m
  | threw message _ _ => exact framed_threw message _
  | @inside _ m' _ _ _ hstep _ hframes _ _ _ _ _ =>
    refine ⟨fun m₁ hm => ?_, fun m₁ hm => ?_⟩
    · rw [hstep] at hm
      cases hm
      rw [hframes]
      exact List.cons_ne_nil _ _
    · rw [hm] at hstep
      cases hstep
  | branched _ _ _ _ => exact framed_next (List.cons_ne_nil _ _)
  | entered _ _ _ _ _ _ _ => exact framed_next (List.cons_ne_nil _ _)
  | returned _ hc _ _ _ => exact framed_next (by rw [hc]; exact List.cons_ne_nil _ _)
  | finished _ _ _ _ _ => exact framed_finished rfl

/-- **Instructions are framed**, whatever they come to. -/
theorem framed_dispatch (setup : Setup) (watch : Breakpoints) (m : Machine) :
    (m.dispatch setup watch).Framed := by
  rcases dispatch_cases setup watch m with ⟨hf, h⟩ | ⟨-, h⟩ | ⟨_, _, _, -, -, he⟩
  · rw [h]
    exact framed_finished hf
  · rw [h]
    exact framed_fault _ _
  · exact he.framed

/-- Entering a function is refused, or an imported one is called with nothing but the arguments on
the stack, or a frame is there before anything is carried out. -/
theorem enterEntry_cases (setup : Setup) (f : Nat) (args : List Value) (m : Machine) :
    (∃ fault m', enterEntry setup f args m = .fault fault m') ∨
      (∃ message m', enterEntry setup f args m = .threw message m') ∨
      (∃ entry m' : Machine, entry.stack.values = args.reverse ∧
        entry.callImport setup f = .next m' ∧ enterEntry setup f args m = .finished m') ∨
      ∃ m', m'.frames ≠ [] ∧ enterEntry setup f args m = .next m' := by
  unfold enterEntry
  obtain ⟨s, -, h | ⟨h, hvalues⟩⟩ := pushArgs_cases { Execution.reset m with ip := ⟨f, 0⟩ } args
  all_goals
    rw [h]
    simp only
  · exact Or.inl ⟨_, _, rfl⟩
  · split
    · rcases callImport_cases setup f ({ Execution.reset m with ip := ⟨f, 0⟩ }.setStack s) with
        ⟨_, hc⟩ | ⟨_, hc⟩ | ⟨m', hc, -⟩
      · rw [hc]
        exact Or.inl ⟨_, _, rfl⟩
      · rw [hc]
        exact Or.inr (Or.inl ⟨_, _, rfl⟩)
      · refine Or.inr (Or.inr (Or.inl ⟨_, m', ?_, hc, by rw [hc]⟩))
        exact hvalues.trans (List.append_nil _)
    · rename_i hnot
      rcases call_cases setup f ({ Execution.reset m with ip := ⟨f, 0⟩ }.setStack s) with
        ⟨_, hc⟩ | ⟨_, hc⟩ | ⟨_, -, ⟨_, _, himported⟩, -⟩ | ⟨_, _, _, _, _, -, -, -, -, hc⟩
      · rw [hc]
        exact Or.inl ⟨_, _, rfl⟩
      · rw [hc]
        exact Or.inr (Or.inl ⟨_, _, rfl⟩)
      · exact absurd himported (hnot _ _)
      · rw [hc]
        exact Or.inr (Or.inr (Or.inr ⟨_, List.cons_ne_nil _ _, rfl⟩))

/-- What has finished as soon as it was entered has left nothing to do. -/
theorem idle_of_enterEntry {f : Nat} {args : List Value}
    (h : enterEntry setup f args m = .finished r) : r.Idle := by
  have hentry := enterEntry_entry setup f args m
  rw [h] at hentry
  cases hentry with
  | idle hidle _ _ => exact hidle

/-- **So is entering a function.** -/
theorem framed_enterEntry (setup : Setup) (f : Nat) (args : List Value) (m : Machine) :
    (enterEntry setup f args m).Framed := by
  rcases enterEntry_cases setup f args m with
    ⟨_, _, h⟩ | ⟨_, _, h⟩ | ⟨_, _, -, -, h⟩ | ⟨_, hframes, h⟩
  · rw [h]
    exact framed_fault _ _
  · rw [h]
    exact framed_threw _ _
  · have hidle := idle_of_enterEntry h
    rw [h]
    exact framed_finished hidle.frames
  · rw [h]
    exact framed_next hframes

/-! ## Where a run stops -/

/-- **A run stops at a machine on its way, or behind the instruction that ends it.** What `m` has
and every instruction that goes on keeps, the one has, and the machine in front of the other. -/
theorem Undisturbed.last {P : Machine → Prop} (h : Undisturbed setup trap r m) (hm : P m)
    (hkeep : ∀ m m₁, P m → (m.dispatch setup {}).onward? = some m₁ → P m₁) :
    (trap.any Trap.isTerminal = false ∧ P r) ∨
      ∃ m₁ t, P m₁ ∧ trap = some t ∧ (m₁.dispatch setup {}).ended? = some (t, r) := by
  induction h with
  | here hp => exact Or.inl ⟨hp, hm⟩
  | ended ht h => exact Or.inr ⟨_, _, hm, ht, h⟩
  | next h _ ih => exact ih (hkeep _ _ hm h)

theorem eq_finished_of_ended? {step : Step} (h : step.ended? = some (.finished, r)) :
    step = .finished r := by
  cases step <;> cases h
  rfl

/-- A program that goes on has a frame, and one that has finished has none. -/
theorem Undisturbed.framed (h : Undisturbed setup trap r m) (hm : m.frames ≠ []) :
    (trap.any Trap.isTerminal = false → r.frames ≠ []) ∧
      (trap = some .finished → r.frames = []) := by
  rcases h.last hm fun m m₁ _ => (framed_dispatch setup {} m).onward m₁ with
    ⟨hgoes, hr⟩ | ⟨m₁, t, -, rfl, hended⟩
  · refine ⟨fun _ => hr, ?_⟩
    rintro rfl
    exact absurd hgoes (by simp [Trap.isTerminal])
  · constructor
    · intro hgoes
      exact absurd hgoes (by simp [isTerminal_of_ended? hended])
    · rintro ⟨rfl⟩
      exact (framed_dispatch setup {} m₁).finished r (eq_finished_of_ended? hended)

end Machine

namespace Execution

open Machine

variable {mode : Mode} {rule : StopRule} {fuel : Nat} {check : Bool} {m : Machine}
  {notices : List Notice} {trap : Option Trap} {e : Execution} {r : Run} {module : Module}
  {limits : Limitation}

/-! ## Statuses that fit -/

/-- **The status fits the frames**: no operation is under way; what is paused can go on; what is
finished cannot; and what has not begun has nothing at all. -/
structure Fits (e : Execution) : Prop where
  running : e.status ≠ .running
  paused : e.status = .paused → e.machine.frames ≠ []
  finished : e.status = .finished → e.machine.frames = []
  uninitialized : e.status = .uninitialized →
    e.machine.frames = [] ∧ e.machine.stack.values = [] ∧ e.machine.ip = ⟨0, 0⟩

/-- After a trap it is enough to know the frames. -/
theorem fits_of_trap (hs : e.status = .ofTrap trap)
    (hgoes : trap.any Trap.isTerminal = false → e.machine.frames ≠ [])
    (hends : trap = some .finished → e.machine.frames = []) : e.Fits := by
  obtain ⟨m, status⟩ := e
  have hs : status = .ofTrap trap := hs
  subst hs
  rcases trap with _ | t
  · exact ⟨nofun, fun _ => hgoes rfl, nofun, nofun⟩
  · cases t with
    | breakpoint _ | watchpoint _ => exact ⟨nofun, fun _ => hgoes rfl, nofun, nofun⟩
    | finished => exact ⟨nofun, nofun, fun _ => hends rfl, nofun⟩
    | fault _ => exact ⟨nofun, nofun, nofun, nofun⟩

theorem fits_stop (hgoes : trap.any Trap.isTerminal = false → m.frames ≠ [])
    (hends : trap = some .finished → m.frames = []) : (stop m trap notices).execution.Fits :=
  fits_of_trap rfl hgoes hends

theorem fits_run (hm : m.frames ≠ [])
    (h : (run mode rule fuel check m notices).outcome = .stopped trap) :
    (run mode rule fuel check m notices).execution.Fits := by
  obtain ⟨hgoes, hends⟩ := (run_undisturbed rfl h).framed hm
  exact fits_of_trap (run_status h) hgoes hends

theorem fits_runEntry {f : Nat} {args : List Value}
    (h : (runEntry mode fuel f args m).outcome = .stopped trap) :
    (runEntry mode fuel f args m).execution.Fits := by
  have hframed := framed_enterEntry mode.setup f args m
  revert h
  unfold runEntry
  generalize enterEntry mode.setup f args m = step at hframed
  intro h
  cases step with
  | next m₁ => exact fits_run (hframed.onward m₁ rfl) h
  | watched index m₁ => exact fits_stop (fun _ => hframed.onward m₁ rfl) nofun
  | finished m₁ => exact fits_stop nofun fun _ => hframed.finished m₁ rfl
  | fault f m₁ => exact fits_stop nofun nofun
  | threw _ _ => cases h

/-- Resuming makes the status fit, whatever it was. -/
theorem fits_resumeBy {how : Resumption}
    (h : (e.resumeBy mode fuel how).outcome = .stopped trap) :
    (e.resumeBy mode fuel how).execution.Fits := by
  by_cases hf : e.machine.frames = []
  · rw [resumeBy_of_frames_nil hf]
    exact fits_stop nofun fun _ => hf
  · obtain ⟨rule, fuel', hrun⟩ : ∃ rule fuel', e.resumeBy mode fuel how =
        run mode rule fuel' false e.machine [] := resumeBy_run hf how
    rw [hrun] at h ⊢
    exact fits_run hf h

/-- A call that is not refused enters the function. -/
theorem call_eq_ok {f : Nat} {args : List Value} (h : e.call mode fuel f args = .ok r) :
    callError? mode.setup.module f args = none ∧ r = runEntry mode fuel f args e.machine := by
  unfold call at h
  split at h
  · cases h
  · rename_i hc
    cases h
    exact ⟨hc, rfl⟩

/-- **A call that is refused leaves the execution as it was.** -/
theorem call_eq_error_iff {f : Nat} {args : List Value} {refusal : CallRefusal} :
    e.call mode fuel f args = .error refusal ↔
      callError? mode.setup.module f args = some refusal.error ∧ refusal.execution = e := by
  unfold call
  cases callError? mode.setup.module f args with
  | none => simp
  | some error =>
    obtain ⟨error', e'⟩ := refusal
    simp [eq_comm]

/-- **Every operation that returns leaves a status that fits.** Starting without an entry point
changes nothing. -/
theorem Operation.fits (h : Operation mode e r) (he : e.Fits) (hr : r.outcome = .stopped trap) :
    r.execution.Fits := by
  cases h with
  | started fuel =>
    revert hr
    unfold start
    split
    · exact fun _ => he
    · exact fits_runEntry
  | called hcall =>
    obtain ⟨-, rfl⟩ := call_eq_ok hcall
    exact fits_runEntry hr
  | resumed fuel how => exact fits_resumeBy hr

theorem fits_of_ofModule? (h : ofModule? (some module) limits = .ok e) : e.Fits := by
  have h : (instantiate? module limits).map (fun m => ⟨m, .uninitialized⟩) = .ok e := h
  cases hm : instantiate? module limits with
  | error _ =>
    rw [hm] at h
    cases h
  | ok m =>
    rw [hm] at h
    cases h
    obtain ⟨hip, hstack, hframes⟩ := blank_of_instantiate? hm
    exact ⟨nofun, nofun, nofun, fun _ => ⟨hframes, congrArg OperandStack.values hstack, hip⟩⟩

/-! ## Sequences of operations -/

/-- An execution after operations that have all returned. Bridge, registry, tracing and bound may
differ from one to the next. -/
inductive Settled (module : Module) (limits : Limitation) : Execution → Prop where
  | created {e : Execution} (h : ofModule? (some module) limits = .ok e) : Settled module limits e
  | operated {e : Execution} {r : Run} (bridge : Bridge) (tracing : Bool) (watch : Breakpoints)
      (trap : Option Trap) (h : Settled module limits e)
      (ho : Operation ⟨⟨module, limits, bridge⟩, tracing, watch⟩ e r)
      (hr : r.outcome = .stopped trap) : Settled module limits r.execution
  | refused {e : Execution} {f : Nat} {args : List Value} {r : CallRefusal} (bridge : Bridge)
      (tracing : Bool) (watch : Breakpoints) (fuel : Nat) (h : Settled module limits e)
      (hr : e.call ⟨⟨module, limits, bridge⟩, tracing, watch⟩ fuel f args = .error r) :
      Settled module limits r.execution

theorem Settled.fits (h : Settled module limits e) : e.Fits := by
  induction h with
  | created h => exact fits_of_ofModule? h
  | operated _ _ _ _ _ ho hr ih => exact ho.fits ih hr
  | refused _ _ _ _ _ hr ih => exact (call_eq_error_iff.mp hr).2 ▸ ih

/-- **The states of an execution.** After any operations that have returned, in any order, the
status fits the frames; and an execution that has finished or has not begun does nothing when it is
resumed, in whatever way, but report that it has finished. -/
theorem statuses_fit (h : Settled module limits e) :
    e.Fits ∧ (e.status = .finished ∨ e.status = .uninitialized → ∀ mode fuel how,
      e.resumeBy mode fuel how = ⟨⟨e.machine, .finished⟩, .stopped (some .finished), []⟩) := by
  have hfits := h.fits
  refine ⟨hfits, fun hstatus mode fuel how => ?_⟩
  have hframes : e.machine.frames = [] := by
    rcases hstatus with hs | hs
    · exact hfits.finished hs
    · exact (hfits.uninitialized hs).1
  exact resumeBy_of_frames_nil hframes how

theorem ofModule?_bare (types : Array FuncType) (functions : Array Function)
    (limits : Limitation) : ofModule? (some { types := types, functions := functions }) limits =
      .ok ⟨bare limits, .uninitialized⟩ := by
  unfold ofModule?
  simp only
  rw [instantiate?_bare]
  rfl

/-- The callee that litters is stopped at its return, so there are frames to go on in. -/
theorem statuses_fit_inside :
    Settled littering.module littering.limits stoppedInside.execution ∧
      stoppedInside.execution.status = .paused ∧
      stoppedInside.execution.machine.frames ≠ [] := by
  have hcreated : Settled littering.module littering.limits
      ⟨bare littering.limits, .uninitialized⟩ := .created (ofModule?_bare _ _ _)
  have hcall : call ⟨littering, false, ⟨[(0, .code ⟨1, 2⟩)], 1⟩⟩ 9 0 []
      ⟨bare littering.limits, .uninitialized⟩ = .ok stoppedInside := rfl
  have hsettled : Settled littering.module littering.limits stoppedInside.execution :=
    .operated .unavailable false ⟨[(0, .code ⟨1, 2⟩)], 1⟩ (some (.breakpoint 0)) hcreated
      (.called hcall) rfl
  exact ⟨hsettled, rfl, (statuses_fit hsettled).1.paused rfl⟩

end Execution

end WasmDebugger
