import WasmDebugger.Execution
import WasmDebugger.Proofs.Effect

/-!
# Reachable machines

The machines that an execution of a module can come to, those in the middle of an operation
included. Bridge and registry may differ from one instruction to the next: a host may answer the
same call differently, and a user may change breakpoints.

* `Machine.Reachable`: created, entered from outside, or one instruction further.
* `reachable_start`, `reachable_call`, `reachable_resumeBy`: every operation stays among them,
  however it ends.
* `run_keeps`, `runEntry_keeps`, `resumeBy_keeps`: what every instruction keeps, they keep.
* `enterEntry_entry`: entering a function leaves its frame as the only one, or none.
* **`Reachable.kept`**: what new machines have, and entering a function and every effect keep, every
  reachable machine has. `Reachable.invariant` asks for less when entering establishes it anew.
-/

namespace WasmDebugger

/-- What comes back from instantiating a module, entering its functions and carrying out
instructions, in any order and however each of them ends. -/
inductive Machine.Reachable (module : Module) (limits : Limitation) : Machine → Prop where
  | created {m} (h : Machine.instantiate? module limits = .ok m) : Reachable module limits m
  | started {m f} (bridge : Bridge) (hr : Reachable module limits m)
      (hf : module.entryPoint? = some f) :
      Reachable module limits (Execution.enterEntry ⟨module, limits, bridge⟩ f.toNat
        (Execution.zeroArgs module f.toNat) m).machine
  | called {m f args} (bridge : Bridge) (hr : Reachable module limits m)
      (hc : Execution.callError? module f args = none) :
      Reachable module limits (Execution.enterEntry ⟨module, limits, bridge⟩ f args m).machine
  | dispatched {m} (bridge : Bridge) (watch : Breakpoints) (hr : Reachable module limits m) :
      Reachable module limits (m.dispatch ⟨module, limits, bridge⟩ watch).machine

namespace Execution

open Machine

variable {module : Module} {limits : Limitation} {bridge : Bridge} {tracing : Bool}
  {watch : Breakpoints} {fuel : Nat}

/-! ## Operations -/

theorem reachable_ofModule? {e : Execution} (h : ofModule? (some module) limits = .ok e) :
    Reachable module limits e.machine := by
  have h : (instantiate? module limits).map (fun m => ⟨m, .uninitialized⟩) = .ok e := h
  cases hm : instantiate? module limits with
  | error _ =>
    rw [hm] at h
    cases h
  | ok m =>
    rw [hm] at h
    cases h
    exact .created hm

/-- What every instruction keeps, a run keeps, however it ends. -/
theorem run_keeps {P : Machine → Prop} {mode : Mode} {rule : StopRule} {check : Bool} {m : Machine}
    {notices : List Notice} (hd : ∀ m, P m → P (m.dispatch mode.setup mode.watch).machine)
    (hm : P m) : P (run mode rule fuel check m notices).execution.machine := by
  induction fuel generalizing check m notices with
  | zero => exact hm
  | succ fuel ih =>
    have hnext := hd m hm
    unfold run
    split
    · exact hm
    · simp only
      generalize m.dispatch mode.setup mode.watch = step at hnext
      cases step with
      | next m =>
        simp only
        split
        · exact hnext
        · exact ih hnext
      | watched _ _ | finished _ | fault _ _ | threw _ _ => exact hnext

theorem runEntry_keeps {P : Machine → Prop} {mode : Mode} {f : Nat} {args : List Value}
    {m : Machine} (hd : ∀ m, P m → P (m.dispatch mode.setup mode.watch).machine)
    (hentry : P (enterEntry mode.setup f args m).machine) :
    P (runEntry mode fuel f args m).execution.machine := by
  unfold runEntry
  generalize enterEntry mode.setup f args m = step at hentry
  cases step with
  | next m => exact run_keeps hd hentry
  | watched _ _ | finished _ | fault _ _ | threw _ _ => exact hentry

theorem resumeBy_keeps {P : Machine → Prop} {mode : Mode} {e : Execution} {how : Resumption}
    (hd : ∀ m, P m → P (m.dispatch mode.setup mode.watch).machine) (he : P e.machine) :
    P (e.resumeBy mode fuel how).execution.machine := by
  have hresume : ∀ (fuel : Nat) (rule : StopRule),
      P (e.resume mode fuel rule).execution.machine := by
    intro fuel rule
    unfold resume
    split
    · exact he
    · exact run_keeps hd he
  cases how <;> exact hresume _ _

theorem reachable_runEntry {f : Nat} {args : List Value} {m : Machine}
    (hr : Reachable module limits (enterEntry ⟨module, limits, bridge⟩ f args m).machine) :
    Reachable module limits
      (runEntry ⟨⟨module, limits, bridge⟩, tracing, watch⟩ fuel f args m).execution.machine :=
  runEntry_keeps (fun _ => .dispatched bridge watch) hr

/-- **Starting stays among the reachable machines.** -/
theorem reachable_start {e : Execution} (hr : Reachable module limits e.machine) :
    Reachable module limits
      (e.start ⟨⟨module, limits, bridge⟩, tracing, watch⟩ fuel).execution.machine := by
  unfold start
  simp only
  split
  · exact hr
  · rename_i f hf
    exact reachable_runEntry (.started bridge hr hf)

/-- **So does a call.** -/
theorem reachable_call {e : Execution} {f : Nat} {args : List Value} {r : Run}
    (hr : Reachable module limits e.machine)
    (h : e.call ⟨⟨module, limits, bridge⟩, tracing, watch⟩ fuel f args = .ok r) :
    Reachable module limits r.execution.machine := by
  unfold call at h
  split at h
  · cases h
  · rename_i hc
    cases h
    exact reachable_runEntry (.called bridge hr hc)

/-- **And so do the four ways to resume.** -/
theorem reachable_resumeBy {e : Execution} {how : Resumption}
    (hr : Reachable module limits e.machine) :
    Reachable module limits
      (e.resumeBy ⟨⟨module, limits, bridge⟩, tracing, watch⟩ fuel how).execution.machine :=
  resumeBy_keeps (fun _ => .dispatched bridge watch) hr

end Execution

namespace Machine

open Execution (reset setEntryReturn pushArgs enterEntry)

/-! ## Entering from outside -/

/-- No function is active. -/
structure Idle (m : Machine) : Prop where
  frames : m.frames = []
  floor : m.stack.floor = 0

/-- A function has been entered from outside: its frame is the only one. -/
inductive Entered (setup : Setup) (f : Nat) (m : Machine) : Machine → Prop where
  | intro {t : UInt32} {locals : List ValueType} {code : Array Instr} {type : FuncType}
      {args : List Value} {stack : OperandStack}
      (hf : setup.module.functions[f]? = some (.defined t locals code))
      (ht : setup.module.funcType? f = some type) (hargs : args.map Value.type = type.params) :
      Entered setup f m
        { m with
          ip := ⟨f, 0⟩
          stack := stack.setFloor stack.size
          frames := [⟨f, (args ++ locals.map Value.zero).toArray, ⟨0, 0⟩, stack.size, []⟩] }

/-- **What entering a function from outside comes to**: nothing is left to do, or it has been
entered. -/
inductive Entry (setup : Setup) (f : Nat) (m : Machine) : Step → Prop where
  | idle {step : Step} (hi : step.machine.Idle)
      (hglobals : step.machine.globals.map Value.type = m.globals.map Value.type)
      (htables : step.machine.tables = m.tables) : Entry setup f m step
  | entered {m' : Machine} (h : Entered setup f m m') : Entry setup f m (.next m')

variable {module : Module} {limits : Limitation} {setup : Setup} {f : Nat} {m : Machine}

/-- Pushing arguments touches nothing but the operands, and all are there when it is done. -/
theorem pushArgs_cases (m : Machine) (args : List Value) :
    ∃ s, m.stack.Shift s ∧
      (pushArgs m args = .error (m.setStack s) ∨
        pushArgs m args = .ok (m.setStack s) ∧ s.values = args.reverse ++ m.stack.values) := by
  induction args generalizing m with
  | nil => exact ⟨m.stack, .refl _, Or.inr ⟨rfl, rfl⟩⟩
  | cons v rest ih =>
    unfold pushArgs
    split
    · exact ⟨m.stack, .refl _, Or.inl rfl⟩
    · rename_i s hs
      have hv : s.values = v :: m.stack.values := by
        unfold OperandStack.push? at hs
        split at hs
        · cases hs
          rfl
        · exact absurd hs (by simp)
      obtain ⟨s', hs', h | ⟨h, hvalues⟩⟩ := ih (m.setStack s)
      · exact ⟨s', (OperandStack.shift_push? hs).trans hs', Or.inl h⟩
      · refine ⟨s', (OperandStack.shift_push? hs).trans hs', Or.inr ⟨h, hvalues.trans ?_⟩⟩
        show rest.reverse ++ s.values = _
        rw [hv, List.reverse_cons, List.append_assoc]
        rfl

/-- **Entering a function from outside is one of the two**, whatever the arguments. -/
theorem enterEntry_entry (setup : Setup) (f : Nat) (args : List Value) (m : Machine) :
    Entry setup f m (enterEntry setup f args m) := by
  unfold enterEntry
  obtain ⟨s, hshift, h | ⟨h, -⟩⟩ := pushArgs_cases { reset m with ip := ⟨f, 0⟩ } args
  all_goals have hs : s.floor = 0 := hshift.floor
  · rw [h]
    exact .idle ⟨rfl, hs⟩ rfl rfl
  · rw [h]
    simp only
    split
    · rcases callImport_cases setup f ({ reset m with ip := ⟨f, 0⟩ }.setStack s) with
        ⟨fault, hc⟩ | ⟨message, hc⟩ | ⟨m', hc, -, hframes, htables, hstack, hglobals⟩
      · rw [hc]
        exact .idle ⟨rfl, hs⟩ rfl rfl
      · rw [hc]
        exact .idle ⟨rfl, hs⟩ rfl rfl
      · rw [hc]
        exact .idle ⟨hframes, hstack.floor.trans hs⟩ hglobals htables
    · rename_i hnot
      rcases call_cases setup f ({ reset m with ip := ⟨f, 0⟩ }.setStack s) with
        ⟨fault, hc⟩ | ⟨message, hc⟩ | ⟨_, -, ⟨_, _, himported⟩, -⟩ |
        ⟨t, locals, code, type, taken, hfun, ht, -, htaken, hc⟩
      · rw [hc]
        exact .idle ⟨rfl, hs⟩ rfl rfl
      · rw [hc]
        exact .idle ⟨rfl, hs⟩ rfl rfl
      · exact absurd himported (hnot _ _)
      · rw [hc]
        exact .entered (.intro hfun ht (OperandStack.values_of_typed? htaken).2.1)

/-- A new machine has nothing on its stacks. -/
theorem blank_of_instantiate? (h : instantiate? module limits = .ok m) :
    m.ip = ⟨0, 0⟩ ∧ m.stack = .empty limits.maxValueStack ∧ m.frames = [] := by
  unfold instantiate? at h
  simp only [bind, Except.bind] at h
  repeat' split at h
  all_goals first | exact absurd h (by simp) | (cases h; exact ⟨rfl, rfl, rfl⟩)

theorem idle_of_instantiate? (h : instantiate? module limits = .ok m) : m.Idle := by
  obtain ⟨-, hstack, hframes⟩ := blank_of_instantiate? h
  exact ⟨hframes, by rw [hstack]; rfl⟩

/-! ## Invariants -/

/-- **What every reachable machine has**: what a new machine has, and entering a function and
every effect keep. -/
theorem Reachable.kept {P : Machine → Prop}
    (hcreated : ∀ m, instantiate? module limits = .ok m → P m)
    (hentry : ∀ bridge f m step, P m → Entry ⟨module, limits, bridge⟩ f m step → P step.machine)
    (heffect : ∀ bridge m frame callers i step, m.frames = frame :: callers → P m →
      fetch? ⟨module, limits, bridge⟩ m.ip = some i →
      Effect ⟨module, limits, bridge⟩ m frame callers i step → P step.machine)
    (hr : Reachable module limits m) : P m := by
  induction hr with
  | created h => exact hcreated _ h
  | started bridge _ _ ih => exact hentry bridge _ _ _ ih (enterEntry_entry _ _ _ _)
  | called bridge _ _ ih => exact hentry bridge _ _ _ ih (enterEntry_entry _ _ _ _)
  | @dispatched m bridge watch _ ih =>
    rcases dispatch_cases ⟨module, limits, bridge⟩ watch m with
      ⟨-, h⟩ | ⟨-, h⟩ | ⟨frame, callers, i, hf, hi, h⟩
    · rw [h]
      exact ih
    · rw [h]
      exact ih
    · exact heffect bridge m frame callers i _ hf ih hi h

/-- It is enough that machines without a frame and functions just entered have it, and that every
effect keeps it. -/
theorem Reachable.invariant {P : Machine → Prop} (hidle : ∀ m, m.Idle → P m)
    (hentered : ∀ bridge f m m', Entered ⟨module, limits, bridge⟩ f m m' → P m')
    (heffect : ∀ bridge m frame callers i step, m.frames = frame :: callers → P m →
      fetch? ⟨module, limits, bridge⟩ m.ip = some i →
      Effect ⟨module, limits, bridge⟩ m frame callers i step → P step.machine)
    (hr : Reachable module limits m) : P m := by
  refine hr.kept (fun m h => hidle m (idle_of_instantiate? h)) ?_ heffect
  intro bridge f m step _ he
  cases he with
  | idle hi _ _ => exact hidle _ hi
  | entered h => exact hentered bridge f m _ h

/-! ## Modules of functions alone -/

/-- The machine of a module without globals, memories and tables. -/
def bare (limits : Limitation) : Machine where
  ip := ⟨0, 0⟩
  stack := .empty limits.maxValueStack
  frames := []
  globals := #[]
  memories := #[]
  tables := #[]

theorem instantiate?_bare (types : Array FuncType) (functions : Array Function)
    (limits : Limitation) :
    instantiate? { types := types, functions := functions } limits = .ok (bare limits) := by
  unfold instantiate?
  simp only [List.map_toArray, List.map_nil]
  rfl

/-- The machine so many instructions after the first function has been called without
arguments. -/
def firstCall (setup : Setup) : Nat → Machine
  | 0 => (enterEntry setup 0 [] (bare setup.limits)).machine
  | k + 1 => ((firstCall setup k).dispatch setup {}).machine

theorem reachable_firstCall {types : Array FuncType} {functions : Array Function}
    {bridge : Bridge}
    (hc : Execution.callError? { types := types, functions := functions } 0 [] = none) (k : Nat) :
    Reachable { types := types, functions := functions } limits
      (firstCall ⟨{ types := types, functions := functions }, limits, bridge⟩ k) := by
  induction k with
  | zero => exact .called bridge (.created (instantiate?_bare types functions limits)) hc
  | succ k ih => exact .dispatched bridge {} ih

end Machine

end WasmDebugger
