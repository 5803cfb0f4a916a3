import WasmDebugger.Proofs.FinishedCalls
import WasmDebugger.Proofs.Requests

/-!
# Fresh runs

Entering a function from outside gives up what was going on. Of what earlier operations have left,
the new run sees globals, memories and tables, and nothing else.

* `Machine.SameStores`: two machines agree in these three.
* `reset_eq_of_sameStores`: then they are the same machine once they are reset. The limit of the
  stack is the one thing that a reset keeps besides; it belongs to the configuration.
* `runEntry_congr`: so a function entered in either runs the same way.
* `refused_iff_unsuited`: a call is refused by the signature of the function alone, and the
  execution is then the one from before.
* `call_zeroArgs`: starting is calling the entry point with zeros.
* **`new_run_forgets_old`**: calls and starts in two executions that agree in their stores come to
  the same, and what is refused changes nothing.
-/

namespace WasmDebugger

/-- What outlives a run: globals, memories and tables. -/
structure Machine.SameStores (m m' : Machine) : Prop where
  globals : m.globals = m'.globals
  memories : m.memories = m'.memories
  tables : m.tables = m'.tables

namespace Execution

open Machine

variable {mode : Mode} {fuel : Nat} {e e₁ e₂ : Execution} {m m₁ m₂ : Machine} {f : Nat}
  {args : List Value}

/-! ## Resetting -/

/-- **A reset leaves the stores and the limit of the stack.** -/
theorem reset_eq_of_sameStores (h : SameStores m₁ m₂) (hlimit : m₁.stack.limit = m₂.stack.limit) :
    reset m₁ = reset m₂ := by
  have hclear : m₁.stack.clear = m₂.stack.clear := congrArg OperandStack.empty hlimit
  unfold reset
  rw [hclear, h.globals, h.memories, h.tables]

/-- The limit of the stack is that of the configuration, whatever has been done. -/
theorem limit_of_operated {module : Module} {limits : Limitation}
    (h : Operated module limits e) : e.machine.stack.limit = limits.maxValueStack :=
  (limited_of_reachable (reachable_of_operated h)).limit

theorem enterEntry_congr {setup : Setup} (h : reset m₁ = reset m₂) :
    enterEntry setup f args m₁ = enterEntry setup f args m₂ := by
  unfold enterEntry
  rw [h]

/-- **Two machines that are the same once they are reset run every function the same way.** -/
theorem runEntry_congr (h : reset m₁ = reset m₂) :
    runEntry mode fuel f args m₁ = runEntry mode fuel f args m₂ := by
  unfold runEntry
  rw [enterEntry_congr h]

/-! ## Starting and calling -/

/-- Why a function cannot be called with some arguments: nothing of that index has a signature, or
the arguments are not those of the signature, in number or in types. -/
inductive Unsuited (module : Module) (f : Nat) (args : List Value) : CallError → Prop where
  | unknown (h : module.funcType? f = none) : Unsuited module f args .unknownFunction
  | arguments {type : FuncType} (ht : module.funcType? f = some type)
      (h : args.map Value.type ≠ type.params) : Unsuited module f args .arguments

theorem callError?_eq_some_iff {module : Module} {error : CallError} :
    callError? module f args = some error ↔ Unsuited module f args error := by
  unfold callError?
  constructor
  · intro h
    split at h
    · rename_i ht
      cases h
      exact .unknown ht
    · rename_i type ht
      split at h
      · cases h
      · rename_i hargs
        cases h
        exact .arguments ht hargs
  · rintro (ht | ⟨ht, hargs⟩)
    · rw [ht]
    · rw [ht]
      exact if_neg hargs

/-- **A call is refused by the signature of the function alone**, and leaves the execution as it
was. -/
theorem refused_iff_unsuited {refusal : CallRefusal} :
    e.call mode fuel f args = .error refusal ↔
      Unsuited mode.setup.module f args refusal.error ∧ refusal.execution = e := by
  rw [call_eq_error_iff, callError?_eq_some_iff]

/-- Calls in machines that are the same once they are reset have the same answer, and the same run
if they are not refused. -/
theorem call_congr (h : reset e₁.machine = reset e₂.machine) :
    (e₁.call mode fuel f args).mapError CallRefusal.error =
      (e₂.call mode fuel f args).mapError CallRefusal.error := by
  unfold call
  rw [runEntry_congr h]
  cases callError? mode.setup.module f args <;> rfl

theorem start_of_entryPoint?_none (h : mode.setup.module.entryPoint? = none) :
    e.start mode fuel = ⟨e, .stopped none, []⟩ := by
  unfold start
  rw [h]

/-- Zeros suit every signature, so the entry point can be called with them. -/
theorem call_zeroArgs {f : UInt32} {type : FuncType}
    (hf : mode.setup.module.entryPoint? = some f)
    (ht : mode.setup.module.funcType? f.toNat = some type) :
    e.call mode fuel f.toNat (type.params.map Value.zero) = .ok (e.start mode fuel) := by
  have hzero : zeroArgs mode.setup.module f.toNat = type.params.map Value.zero := by
    unfold zeroArgs
    rw [ht]
  have htypes : (type.params.map Value.zero).map Value.type = type.params := by
    rw [List.map_map]
    exact List.map_id'' Value.type_zero type.params
  have hcheck : callError? mode.setup.module f.toNat (type.params.map Value.zero) = none := by
    unfold callError?
    rw [ht]
    exact if_pos htypes
  unfold call
  rw [hcheck, start_of_entryPoint? hf, hzero]

/-- A session refuses an unsuited call before it does anything. -/
theorem sessionCall_of_unsuited {s : Session} {l : Loaded} {error : CallError}
    (hlive : s.live? = some (l, e)) (h : Unsuited l.module f args error) :
    s.call fuel f args = s.refuse (.ofCall error) := by
  obtain ⟨hl, -⟩ := Session.live?_eq_some_iff.mp hlive
  unfold Session.call
  simp only [hl, callError?_eq_some_iff.mpr h]

/-- **A new run does not depend on the one that it puts an end to.** Take two executions, however
they have come about, of one module under one configuration that agree in globals, memories and
tables. Every call comes to the same in both: it is refused in both for the same reason, or runs to
the same outcome with the same notices, and leaves the same position, operands, frames, stores and
status. So does every start.

A call is refused exactly when the function has no signature or the arguments are not those of its
signature. It then leaves the execution as it was, and a session in which the execution lives too. A
start without an entry point changes nothing. With one that has a signature it is the call with
zeros. -/
theorem new_run_forgets_old (h₁ : Operated mode.setup.module mode.setup.limits e₁)
    (h₂ : Operated mode.setup.module mode.setup.limits e₂)
    (hs : SameStores e₁.machine e₂.machine) (fuel : Nat) :
    (∀ f args, (e₁.call mode fuel f args).mapError CallRefusal.error =
      (e₂.call mode fuel f args).mapError CallRefusal.error) ∧
    (∀ f, mode.setup.module.entryPoint? = some f → e₁.start mode fuel = e₂.start mode fuel) ∧
    (∀ f args refusal, e₁.call mode fuel f args = .error refusal ↔
      Unsuited mode.setup.module f args refusal.error ∧ refusal.execution = e₁) ∧
    (∀ (s : Session) l f args error, s.live? = some (l, e₁) → s.mode l = mode →
      Unsuited mode.setup.module f args error →
      s.call fuel f args = s.refuse (.ofCall error)) ∧
    (mode.setup.module.entryPoint? = none → e₁.start mode fuel = ⟨e₁, .stopped none, []⟩) ∧
    ∀ f type, mode.setup.module.entryPoint? = some f →
      mode.setup.module.funcType? f.toNat = some type →
      e₁.call mode fuel f.toNat (type.params.map Value.zero) = .ok (e₁.start mode fuel) := by
  have hreset : reset e₁.machine = reset e₂.machine :=
    reset_eq_of_sameStores hs ((limit_of_operated h₁).trans (limit_of_operated h₂).symm)
  refine ⟨fun f args => call_congr hreset, fun f hf => ?_, fun f args _ => refused_iff_unsuited, ?_,
    start_of_entryPoint?_none, fun f type hf ht => call_zeroArgs hf ht⟩
  · rw [start_of_entryPoint? hf, start_of_entryPoint? hf, runEntry_congr hreset]
  · rintro s l f args error hlive rfl h
    exact sessionCall_of_unsuited hlive h

/-- What a call of the littering module's first function comes to. -/
def litteringRun : Run :=
  runEntry ⟨littering, false, {}⟩ 9 0 [] (bare littering.limits)

/-- An execution that is stopped in the callee, with operands of two functions on the stack, runs
as one that has not begun. -/
theorem new_run_forgets_old_inside :
    Operated littering.module littering.limits stoppedInside.execution ∧
      stoppedInside.execution.machine.frames.length = 2 ∧
      stoppedInside.execution.machine.stack.values = [.i32 2, .i32 1, .i32 9] ∧
      litteringRun.outcome = .stopped (some .finished) ∧
      stoppedInside.execution.call ⟨littering, false, {}⟩ 9 0 [] = .ok litteringRun := by
  have hcreated : Operated littering.module littering.limits
      ⟨bare littering.limits, .uninitialized⟩ := .created (ofModule?_bare _ _ _)
  have hcall : call ⟨littering, false, ⟨[(0, .code ⟨1, 2⟩)], 1⟩⟩ 9 0 []
      ⟨bare littering.limits, .uninitialized⟩ = .ok stoppedInside := rfl
  have hinside : Operated littering.module littering.limits stoppedInside.execution :=
    .called .unavailable false ⟨[(0, .code ⟨1, 2⟩)], 1⟩ 9 hcreated hcall
  obtain ⟨hcalls, -⟩ :=
    @new_run_forgets_old ⟨littering, false, {}⟩ _ _ hinside hcreated ⟨rfl, rfl, rfl⟩ 9
  have hanswer : (stoppedInside.execution.call ⟨littering, false, {}⟩ 9 0 []).mapError
      CallRefusal.error = .ok litteringRun := hcalls 0 []
  cases hagain : stoppedInside.execution.call ⟨littering, false, {}⟩ 9 0 [] with
  | error refusal =>
    rw [hagain] at hanswer
    cases hanswer
  | ok r =>
    rw [hagain] at hanswer
    exact ⟨hinside, rfl, rfl, rfl, congrArg Except.ok (Except.ok.inj hanswer)⟩

end Execution

end WasmDebugger
