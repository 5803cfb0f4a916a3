import WasmDebugger.Proofs.Statuses

/-!
# What a finished call leaves

When the function that was entered from outside has returned, its results are all that is left:
operands that it or its callees did not use up are gone, whichever way it ended.

* `Finished`: no frame, and one value for each declared result.
* `callImport_values`: an imported function puts its results in the place of its arguments.
* `Calling`: the machines on the way from entering a function to its return.
* `CallRun`: what entering a function and resuming it afterwards return.
* **`finished_call_leaves_results`**: a call that has finished has left its results and nothing
  else.
-/

namespace WasmDebugger

namespace Machine

open Execution (enterEntry zeroArgs callError?)

variable {module : Module} {limits : Limitation} {setup : Setup} {watch : Breakpoints} {f : Nat}
  {m m' : Machine} {frame : Frame} {callers : List Frame} {i : Instr} {step : Step}

/-- **Nothing is left of a call of `f` but its results**, the last one uppermost. -/
structure Finished (module : Module) (f : Nat) (m : Machine) : Prop where
  frames : m.frames = []
  floor : m.stack.floor = 0
  results : ∃ type, module.funcType? f = some type ∧
    m.stack.values.reverse.map Value.type = type.results

/-! ## Imported functions -/

/-- What the host returns, if it is not refused, is what the function declares. -/
theorem returned_of_refusal? {type : FuncType} {globals : Array Value} {r : ImportResult}
    (h : refusal? type globals r = none) : r.returned.toList.map Value.type = type.results := by
  unfold refusal? at h
  split at h
  · exact absurd h (by simp)
  · rename_i hone
    split at h
    · exact absurd h (by simp)
    · exact absurd h (by simp)
    · rename_i hresults hreturned
      rw [hresults, hreturned]
      rfl
    · rename_i t rest v hresults hreturned
      have hrest : rest = [] := by
        rw [hresults, List.length_cons] at hone
        exact List.length_eq_zero_iff.mp (by omega)
      split at h
      · rename_i ht
        rw [hresults, hreturned, hrest, ← ht]
        rfl
      · exact absurd h (by simp)

/-- Taking over a result puts it in the place of the arguments. -/
theorem values_of_commit {args : List Value} {r : ImportResult}
    (h : m.commit args r = .next m') :
    m'.stack.values = r.returned.toList ++ m.stack.values.drop args.length := by
  unfold commit at h
  simp only at h
  split at h
  · cases h
  · rename_i s hs
    cases h
    cases hreturned : r.returned with
    | none =>
      rw [hreturned] at hs
      cases hs
      rfl
    | some v =>
      rw [hreturned] at hs
      unfold OperandStack.push? at hs
      simp only at hs
      split at hs
      · cases hs
        rfl
      · cases hs

/-- **An imported function puts its results in the place of its arguments.** -/
theorem callImport_values (h : m.callImport setup f = .next m') :
    ∃ (type : FuncType) (results : List Value), setup.module.funcType? f = some type ∧
      results.map Value.type = type.results ∧
      m'.stack.values = results.reverse ++ m.stack.values.drop type.params.length := by
  unfold callImport at h
  split at h
  · rename_i type _ htype
    split at h
    · cases h
    · rename_i args hargs
      simp only at h
      split at h
      · cases h
      · cases h
      · rename_i r _
        split at h
        · cases h
        · rename_i hr
          refine ⟨type, r.returned.toList, htype, returned_of_refusal? hr, ?_⟩
          -- one value at most, so it does not matter which comes first
          have hreverse : r.returned.toList.reverse = r.returned.toList := by
            cases r.returned <;> rfl
          rw [hreverse, values_of_commit h, OperandStack.length_of_typed? hargs]
  · cases h

/-- A function that has finished as soon as it was entered has left its results. -/
theorem finished_of_enterEntry {args : List Value}
    (hargs : ∀ type, setup.module.funcType? f = some type → args.length = type.params.length)
    (h : enterEntry setup f args m = .finished m') : Finished setup.module f m' := by
  have hidle := idle_of_enterEntry h
  rcases enterEntry_cases setup f args m with
    ⟨_, _, hc⟩ | ⟨_, _, hc⟩ | ⟨entry, m₁, hvalues, hnext, hc⟩ | ⟨_, -, hc⟩
  all_goals
    rw [hc] at h
    cases h
  obtain ⟨type, results, htype, hresults, hleft⟩ := callImport_values hnext
  refine ⟨hidle.frames, hidle.floor, type, htype, ?_⟩
  -- the arguments were all that lay on the stack
  have hrest : entry.stack.values.drop type.params.length = [] := by
    rw [hvalues, List.drop_eq_nil_iff, List.length_reverse, hargs type htype]
  rw [hleft, hrest, List.append_nil, List.reverse_reverse]
  exact hresults

/-! ## From entering to returning -/

/-- A machine on the way of a call of `f` from outside, or behind its end: `f` is entered, by its
arguments or as the entry point, and then goes on instruction by instruction. Host and registry may
be others at each. -/
inductive Calling (module : Module) (limits : Limitation) (f : Nat) : Machine → Prop where
  | started {m : Machine} {g : UInt32} (bridge : Bridge) (hr : Reachable module limits m)
      (hg : module.entryPoint? = some g) (hf : g.toNat = f) :
      Calling module limits f
        (enterEntry ⟨module, limits, bridge⟩ f (zeroArgs module f) m).machine
  | called {m : Machine} {args : List Value} (bridge : Bridge) (hr : Reachable module limits m)
      (hc : callError? module f args = none) :
      Calling module limits f (enterEntry ⟨module, limits, bridge⟩ f args m).machine
  | dispatched {m : Machine} (bridge : Bridge) (watch : Breakpoints)
      (h : Calling module limits f m) :
      Calling module limits f (m.dispatch ⟨module, limits, bridge⟩ watch).machine

theorem Calling.reachable (h : Calling module limits f m) : Reachable module limits m := by
  induction h with
  | started bridge hr hg hf =>
    subst hf
    exact .started bridge hr hg
  | called bridge hr hc => exact .called bridge hr hc
  | dispatched bridge watch _ ih => exact .dispatched bridge watch ih

/-- The outermost frame belongs to `f`. -/
def Under (f : Nat) (m : Machine) : Prop := ∀ g ∈ m.frames.getLast?, g.function = f

theorem under_of_frames_nil (hf : m.frames = []) : Under f m := by
  unfold Under
  simp [hf]

theorem under_enterEntry (setup : Setup) (f : Nat) (args : List Value) (m : Machine) :
    Under f (enterEntry setup f args m).machine := by
  have hentry := enterEntry_entry setup f args m
  generalize enterEntry setup f args m = step at hentry
  cases hentry with
  | idle hidle _ _ => exact under_of_frames_nil hidle.frames
  | entered h =>
    cases h
    rintro g ⟨rfl⟩
    rfl

/-- Another frame of the same function in the place of the innermost one. -/
theorem Under.update {frame' : Frame} (h : Under f m) (hf : m.frames = frame :: callers)
    (hf' : m'.frames = frame' :: callers) (hsame : frame'.function = frame.function) :
    Under f m' := by
  unfold Under at h ⊢
  rw [hf] at h
  rw [hf']
  cases callers with
  | nil =>
    rintro g ⟨rfl⟩
    exact hsame.trans (h frame rfl)
  | cons caller outer => exact h

/-- **Only the end of the outermost function takes its frame away.** -/
theorem Under.effect (h : Under f m) (hf : m.frames = frame :: callers)
    (he : Effect setup m frame callers i step) : Under f step.machine := by
  cases he with
  | fault _ => exact h
  | threw _ _ _ => exact h
  | inside hstep _ hframes _ _ _ _ _ =>
    rw [machine_of_onward? hstep]
    exact h.update hf hframes rfl
  | branched _ _ _ _ => exact h.update hf rfl rfl
  | entered _ _ _ _ _ _ _ =>
    unfold Under at h ⊢
    rw [hf] at h
    simpa only [Step.machine, hf, List.getLast?_cons_cons] using h
  | returned _ hc _ _ _ =>
    unfold Under at h ⊢
    rw [hf, hc, List.getLast?_cons_cons] at h
    simpa only [Step.machine, hc] using h
  | finished _ _ _ _ _ => exact under_of_frames_nil rfl

theorem Calling.under (h : Calling module limits f m) : Under f m := by
  induction h with
  | started _ _ _ _ => exact under_enterEntry _ f _ _
  | called _ _ _ => exact under_enterEntry _ f _ _
  | @dispatched m bridge watch _ ih =>
    rcases dispatch_cases ⟨module, limits, bridge⟩ watch m with
      ⟨-, h⟩ | ⟨-, h⟩ | ⟨frame, callers, i, hf, -, he⟩
    · rw [h]
      exact ih
    · rw [h]
      exact ih
    · exact ih.effect hf he

/-- **The instruction that ends the call leaves its results**, and what lay under and above them
is gone: the outermost frame starts at the bottom of the stack. -/
theorem Calling.finished {bridge : Bridge} (h : Calling module limits f m) (hm : m.frames ≠ [])
    (hd : m.dispatch ⟨module, limits, bridge⟩ watch = .finished m') : Finished module f m' := by
  have hlimited := limited_of_reachable h.reachable
  rcases dispatch_cases ⟨module, limits, bridge⟩ watch m with
    ⟨hnil, -⟩ | ⟨-, hfault⟩ | ⟨frame, callers, i, hf, -, he⟩
  · exact absurd hnil hm
  · rw [hd] at hfault
    cases hfault
  · rw [hd] at he
    cases he with
    | inside hstep _ _ _ _ _ _ _ => cases hstep
    | @finished type results _ hc htype _ hr =>
      have hlast : frame ∈ m.frames.getLast? := by
        rw [hf, hc]
        rfl
      have hfunction : frame.function = f := h.under frame hlast
      have hbase : frame.base = 0 := hlimited.outermost frame hlast
      refine ⟨rfl, rfl, type, hfunction ▸ htype, ?_⟩
      have hbottom : ((m.decided i).truncate frame.base).values = [] := by
        rw [hbase]
        exact OperandStack.values_truncate (List.nil_suffix)
      show (m.handedBack frame i results).values.reverse.map Value.type = type.results
      unfold handedBack
      rw [OperandStack.values_restoreAll, hbottom, List.append_nil, List.reverse_reverse]
      exact (OperandStack.values_of_typed? hr).2.1

end Machine

namespace Execution

open Machine

variable {module : Module} {limits : Limitation} {bridge : Bridge} {tracing : Bool}
  {watch : Breakpoints} {mode : Mode} {rule : StopRule} {fuel : Nat} {check : Bool} {f : Nat}
  {m : Machine} {e : Execution} {r : Run} {notices : List Notice}

/-! ## Operations of one call -/

/-- **What the operations of one call of `f` return**: the one that enters it, and those that later
resume the execution while it has a frame. Bridge, registry, tracing and bound may differ. -/
inductive CallRun (module : Module) (limits : Limitation) (f : Nat) : Run → Prop where
  | started {e : Execution} {g : UInt32} (bridge : Bridge) (tracing : Bool) (watch : Breakpoints)
      (fuel : Nat) (he : Operated module limits e) (hg : module.entryPoint? = some g)
      (hf : g.toNat = f) :
      CallRun module limits f (e.start ⟨⟨module, limits, bridge⟩, tracing, watch⟩ fuel)
  | called {e : Execution} {args : List Value} {r : Run} (bridge : Bridge) (tracing : Bool)
      (watch : Breakpoints) (fuel : Nat) (he : Operated module limits e)
      (hr : e.call ⟨⟨module, limits, bridge⟩, tracing, watch⟩ fuel f args = .ok r) :
      CallRun module limits f r
  | resumed {r : Run} (bridge : Bridge) (tracing : Bool) (watch : Breakpoints) (fuel : Nat)
      (how : Resumption) (h : CallRun module limits f r)
      (hframes : r.execution.machine.frames ≠ []) :
      CallRun module limits f
        (r.execution.resumeBy ⟨⟨module, limits, bridge⟩, tracing, watch⟩ fuel how)

theorem start_of_entryPoint? {g : UInt32} (hg : mode.setup.module.entryPoint? = some g) :
    e.start mode fuel =
      runEntry mode fuel g.toNat (zeroArgs mode.setup.module g.toNat) e.machine := by
  unfold start
  rw [hg]

theorem CallRun.calling (h : CallRun module limits f r) :
    Calling module limits f r.execution.machine := by
  induction h with
  | started bridge _ watch _ he hg hf =>
    rw [start_of_entryPoint? hg]
    subst hf
    exact runEntry_keeps (fun _ => .dispatched bridge watch)
      (.started bridge (reachable_of_operated he) hg rfl)
  | called bridge _ watch _ he hr =>
    obtain ⟨hc, rfl⟩ := call_eq_ok hr
    exact runEntry_keeps (fun _ => .dispatched bridge watch)
      (.called bridge (reachable_of_operated he) hc)
  | resumed bridge _ watch _ _ _ _ ih => exact resumeBy_keeps (fun _ => .dispatched bridge watch) ih

/-- A run that finishes has come to the instruction that ends the call. -/
theorem finished_of_run (hm : Calling module limits f m) (hf : m.frames ≠ [])
    (h : (run ⟨⟨module, limits, bridge⟩, tracing, watch⟩ rule fuel check m notices).outcome =
      .stopped (some .finished)) :
    Finished module f
      (run ⟨⟨module, limits, bridge⟩, tracing, watch⟩ rule fuel check m
        notices).execution.machine := by
  have hleft := run_undisturbed rfl h
  have hkeep : ∀ m m₁ : Machine, Calling module limits f m ∧ m.frames ≠ [] →
      (m.dispatch ⟨module, limits, bridge⟩ {}).onward? = some m₁ →
      Calling module limits f m₁ ∧ m₁.frames ≠ [] := by
    rintro m m₁ ⟨hcalling, -⟩ honward
    refine ⟨?_, (framed_dispatch _ _ m).onward m₁ honward⟩
    rw [← machine_of_onward? honward]
    exact .dispatched bridge {} hcalling
  rcases hleft.last ⟨hm, hf⟩ hkeep with ⟨hgoes, -⟩ | ⟨m₁, t, ⟨hcalling, hframes⟩, ht, hended⟩
  · exact absurd hgoes (by simp [Trap.isTerminal])
  · cases ht
    exact hcalling.finished hframes (eq_finished_of_ended? hended)

theorem finished_of_runEntry {args : List Value}
    (hargs : ∀ type, module.funcType? f = some type → args.length = type.params.length)
    (hm : Calling module limits f (enterEntry ⟨module, limits, bridge⟩ f args m).machine)
    (h : (runEntry ⟨⟨module, limits, bridge⟩, tracing, watch⟩ fuel f args m).outcome =
      .stopped (some .finished)) :
    Finished module f
      (runEntry ⟨⟨module, limits, bridge⟩, tracing, watch⟩ fuel f args m).execution.machine := by
  have hframed := framed_enterEntry ⟨module, limits, bridge⟩ f args m
  have hfinished : ∀ m', enterEntry ⟨module, limits, bridge⟩ f args m = .finished m' →
      Finished module f m' := fun _ => finished_of_enterEntry hargs
  revert h
  unfold runEntry
  simp only
  generalize enterEntry ⟨module, limits, bridge⟩ f args m = step at hm hframed hfinished
  intro h
  cases step with
  | next m₁ => exact finished_of_run hm (hframed.onward m₁ rfl) h
  | finished m₁ => exact hfinished m₁ rfl
  | watched _ _ | fault _ _ | threw _ _ => cases h

theorem CallRun.finished (h : CallRun module limits f r)
    (hr : r.outcome = .stopped (some .finished)) : Finished module f r.execution.machine := by
  cases h with
  | started bridge _ _ _ he hg hf =>
    subst hf
    have hcalling := Calling.started bridge (reachable_of_operated he) hg rfl
    rw [start_of_entryPoint? hg] at hr ⊢
    exact finished_of_runEntry (fun _ => length_zeroArgs) hcalling hr
  | called bridge _ _ _ he hcall =>
    obtain ⟨hc, rfl⟩ := call_eq_ok hcall
    exact finished_of_runEntry (fun _ => length_of_callError? hc)
      (.called bridge (reachable_of_operated he) hc) hr
  | @resumed r' bridge tracing watch fuel how hcall hframes =>
    obtain ⟨rule, fuel', hrun⟩ : ∃ rule fuel',
        r'.execution.resumeBy ⟨⟨module, limits, bridge⟩, tracing, watch⟩ fuel how =
          run ⟨⟨module, limits, bridge⟩, tracing, watch⟩ rule fuel' false r'.execution.machine [] :=
      resumeBy_run hframes how
    rw [hrun] at hr ⊢
    exact finished_of_run hcall.calling hframes hr

/-- **The results of a finished call.** If entering a function from outside, or resuming the
execution while it has a frame, returns that execution has finished, then there is no frame, the
floor is zero, and the operands are one value for each declared result of the function, of the
declared types and in order. The function may be a defined or an imported one and may have ended in
any way. The second part says the same of the single instruction that ends the call, so that the
host may answer differently from one instruction to the next. -/
theorem finished_call_leaves_results :
    (∀ r, CallRun module limits f r → r.outcome = .stopped (some .finished) →
      Finished module f r.execution.machine) ∧
    ∀ bridge watch m m', Calling module limits f m → m.frames ≠ [] →
      m.dispatch ⟨module, limits, bridge⟩ watch = .finished m' → Finished module f m' :=
  ⟨fun _ => CallRun.finished, fun _ _ _ _ h hm hd => h.finished hm hd⟩

/-- A function that branches out of itself in a block, with operands in front of it and in it. -/
def branchingOut : Setup where
  module :=
    { types := #[⟨[], [.i32]⟩]
      functions := #[.defined 0 []
        #[.const (.i32 9), .block none (some 5), .const (.i64 7), .const (.i32 5), .br 1,
          .blockEnd, .blockEnd]] }
  limits := {}
  bridge := .unavailable

/-- It, stopped at the branch. -/
def stoppedAtBranch : Run :=
  runEntry ⟨branchingOut, false, ⟨[(0, .code ⟨0, 4⟩)], 1⟩⟩ 9 0 [] (bare branchingOut.limits)

theorem finished_call_leaves_results_branchingOut :
    CallRun branchingOut.module branchingOut.limits 0
      (stoppedAtBranch.execution.resumeBy ⟨branchingOut, false, {}⟩ 9 .stepOver) ∧
    stoppedAtBranch.execution.machine.stack.values = [.i32 5, .i64 7, .i32 9] ∧
    Finished branchingOut.module 0
      (stoppedAtBranch.execution.resumeBy ⟨branchingOut, false, {}⟩ 9 .stepOver).execution.machine ∧
    (stoppedAtBranch.execution.resumeBy ⟨branchingOut, false, {}⟩ 9
      .stepOver).execution.machine.stack.values = [.i32 5] := by
  have hcreated : Operated branchingOut.module branchingOut.limits
      ⟨bare branchingOut.limits, .uninitialized⟩ := .created (ofModule?_bare _ _ _)
  have hcall : call ⟨branchingOut, false, ⟨[(0, .code ⟨0, 4⟩)], 1⟩⟩ 9 0 []
      ⟨bare branchingOut.limits, .uninitialized⟩ = .ok stoppedAtBranch := rfl
  have hcalled : CallRun branchingOut.module branchingOut.limits 0 stoppedAtBranch :=
    .called .unavailable false ⟨[(0, .code ⟨0, 4⟩)], 1⟩ 9 hcreated hcall
  have hresumed : CallRun branchingOut.module branchingOut.limits 0
      (stoppedAtBranch.execution.resumeBy ⟨branchingOut, false, {}⟩ 9 .stepOver) :=
    .resumed .unavailable false {} 9 .stepOver hcalled (by decide)
  exact ⟨hresumed, rfl, finished_call_leaves_results.1 _ hresumed rfl, rfl⟩

end Execution

end WasmDebugger
