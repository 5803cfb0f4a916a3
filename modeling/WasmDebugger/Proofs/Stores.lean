import WasmDebugger.Proofs.FrameChain

/-!
# Typed stores

Nothing validates the code of a module. Its globals and locals keep their types all the same, since
whatever is written is compared with what it replaces, by an instruction or when the host hands
globals back. Tables are never written.

* `FrameTyped`: a frame has the parameters and the declared locals of its function.
* `Stored`: frames are typed, globals have their declared types, and tables are those of the new
  machine.
* `stored_of_instantiate?`, `Stored.entry`, `Stored.effect`: a new machine is so, and entering a
  function and every effect keep it.
* **`stores_stay_typed`**: every execution is so.
-/

namespace WasmDebugger.Machine

open Execution (Operated ofModule? reachable_of_operated)

variable {module : Module} {limits : Limitation} {setup : Setup} {new m : Machine} {frame : Frame}
  {callers : List Frame} {i : Instr} {step : Step}

/-- The locals of a frame are, in number and types, the parameters of its function and then the
declared ones. -/
def FrameTyped (module : Module) (frame : Frame) : Prop :=
  ∃ t declared code type, module.functions[frame.function]? = some (.defined t declared code) ∧
    module.funcType? frame.function = some type ∧
    frame.locals.toList.map Value.type = type.params ++ declared

/-- **What a machine stores** has the types that the module declares, and its tables are those of
the new machine. -/
structure Stored (module : Module) (new m : Machine) : Prop where
  globals : m.globals.map Value.type = module.globals.map Global.type
  locals : ∀ frame ∈ m.frames, FrameTyped module frame
  tables : m.tables = new.tables

/-! ## New machines -/

/-- Globals are initialised one after the other, each from those before it. -/
theorem globals_of_instantiate? (h : instantiate? module limits = .ok m) :
    module.globals.toList.foldlM initGlobal #[] = .ok m.globals := by
  unfold instantiate? at h
  simp only [bind, Except.bind] at h
  split at h
  · exact absurd h (by simp)
  · rename_i globals hglobals
    repeat' split at h
    all_goals first | exact absurd h (by simp) | (cases h; exact hglobals)

/-- A global is initialised with a value of its type. -/
theorem types_of_initGlobal {globals next : Array Value} {g : Global}
    (h : initGlobal globals g = .ok next) :
    next.toList.map Value.type = globals.toList.map Value.type ++ [g.type] := by
  unfold initGlobal at h
  split at h
  · cases h
    simp
  · split at h
    · exact absurd h (by simp)
    · split at h
      · rename_i htype
        cases h
        simp [htype]
      · exact absurd h (by simp)

theorem types_of_foldlM_initGlobal {declared : List Global} {globals final : Array Value}
    (h : declared.foldlM initGlobal globals = .ok final) :
    final.toList.map Value.type = globals.toList.map Value.type ++ declared.map Global.type := by
  induction declared generalizing globals with
  | nil =>
    cases h
    simp
  | cons g rest ih =>
    rw [List.foldlM_cons] at h
    cases hg : initGlobal globals g with
    | error e =>
      rw [hg] at h
      exact absurd h (by simp [bind, Except.bind])
    | ok next =>
      rw [hg] at h
      rw [ih h, types_of_initGlobal hg, List.append_assoc]
      rfl

theorem stored_of_instantiate? (h : instantiate? module limits = .ok m) : Stored module m m where
  globals := by
    have htypes := types_of_foldlM_initGlobal (globals_of_instantiate? h)
    apply Array.toList_inj.mp
    simpa using htypes
  locals := by
    obtain ⟨-, -, hframes⟩ := blank_of_instantiate? h
    simp [hframes]
  tables := rfl

/-! ## Frames -/

/-- A function is entered with its arguments and zeros of its declared types. -/
theorem frameTyped_of_args {f : Nat} {t : UInt32} {declared : List ValueType} {code : Array Instr}
    {type : FuncType} {args : List Value}
    (hf : module.functions[f]? = some (.defined t declared code))
    (ht : module.funcType? f = some type) (hargs : args.map Value.type = type.params)
    (hfunction : frame.function = f)
    (hlocals : frame.locals = (args ++ declared.map Value.zero).toArray) :
    FrameTyped module frame := by
  subst hfunction
  refine ⟨t, declared, code, type, hf, ht, ?_⟩
  rw [hlocals, List.map_append, hargs, List.map_map]
  simp [Function.comp_def]

/-- Locals that are replaced by others of their types leave a frame typed. -/
theorem FrameTyped.assign {frame' : Frame} (h : FrameTyped module frame)
    (hfunction : frame'.function = frame.function)
    (hlocals : frame'.locals.map Value.type = frame.locals.map Value.type) :
    FrameTyped module frame' := by
  obtain ⟨t, declared, code, type, hf, ht, htypes⟩ := h
  refine ⟨t, declared, code, type, hfunction ▸ hf, hfunction ▸ ht, ?_⟩
  rw [← htypes, ← Array.toList_map, ← Array.toList_map, hlocals]

/-! ## Steps -/

/-- Entering a function from outside keeps globals and tables, and its frame is typed. -/
theorem Stored.entry {f : Nat} (h : Stored setup.module new m) (he : Entry setup f m step) :
    Stored setup.module new step.machine := by
  cases he with
  | idle hi hglobals htables =>
    exact ⟨hglobals.trans h.globals, by simp [hi.frames], htables.trans h.tables⟩
  | entered he =>
    cases he with
    | intro hf ht hargs =>
      refine ⟨h.globals, fun g hg => ?_, h.tables⟩
      cases List.mem_singleton.mp hg
      exact frameTyped_of_args hf ht hargs rfl rfl

/-- **Every effect keeps what is stored typed**: only `inside` changes globals or the locals of a
frame that is there, and it keeps their types. -/
theorem Stored.effect (h : Stored setup.module new m) (hf : m.frames = frame :: callers)
    (he : Effect setup m frame callers i step) : Stored setup.module new step.machine := by
  obtain ⟨hframe, hcallers⟩ := List.forall_mem_cons.mp (hf ▸ h.locals)
  cases he with
  | fault _ => exact h
  | threw _ _ _ => exact ⟨h.globals, h.locals, h.tables⟩
  | inside hstep _ hframes hlocals _ _ hglobals htables =>
    rw [machine_of_onward? hstep]
    refine ⟨hglobals.trans h.globals, ?_, htables.trans h.tables⟩
    rw [hframes]
    exact List.forall_mem_cons.mpr ⟨hframe.assign rfl hlocals, hcallers⟩
  | branched _ _ _ _ =>
    exact ⟨h.globals, List.forall_mem_cons.mpr ⟨hframe.assign rfl rfl, hcallers⟩, h.tables⟩
  | entered _ _ hdefined ht _ _ hargs =>
    have htypes := (OperandStack.values_of_typed? hargs).2.1
    exact ⟨h.globals,
      List.forall_mem_cons.mpr ⟨frameTyped_of_args hdefined ht htypes rfl rfl, h.locals⟩, h.tables⟩
  | returned _ _ _ _ _ => exact ⟨h.globals, hcallers, h.tables⟩
  | finished _ _ _ _ _ => exact ⟨h.globals, fun _ hg => absurd hg List.not_mem_nil, h.tables⟩

theorem stored_of_reachable (h : Reachable module limits m) :
    ∃ new, instantiate? module limits = .ok new ∧ Stored module new m := by
  refine h.kept (P := fun m => ∃ new, instantiate? module limits = .ok new ∧ Stored module new m)
    (fun m hm => ⟨m, hm, stored_of_instantiate? hm⟩) ?_ ?_
  · rintro bridge f m step ⟨new, hnew, hm⟩ he
    have hkeep := @Stored.entry ⟨module, limits, bridge⟩ new m step f hm he
    exact ⟨new, hnew, hkeep⟩
  · rintro bridge m frame callers i step hf ⟨new, hnew, hm⟩ - he
    have hkeep := @Stored.effect ⟨module, limits, bridge⟩ new m frame callers i step hm hf he
    exact ⟨new, hnew, hkeep⟩

/-- **Stores stay typed.** After every sequence of operations on a module that has been made ready,
with any hosts, there are as many globals as it declares, each of its declared type; the locals of
every frame are the parameters and the declared locals of its function; and the tables are those of
the new machine. So it is at every instruction in between, also when the host answers one request
now so and now otherwise. -/
theorem stores_stay_typed (module : Module) (limits : Limitation) :
    (∀ e, Operated module limits e →
      ∃ new, instantiate? module limits = .ok new ∧ Stored module new e.machine) ∧
    ∀ m, Reachable module limits m →
      ∃ new, instantiate? module limits = .ok new ∧ Stored module new m :=
  ⟨fun _ h => stored_of_reachable (reachable_of_operated h), fun _ h => stored_of_reachable h⟩

/-- A function that stores its parameter in a global and a number in its local. -/
def storing : Setup where
  module :=
    { types := #[⟨[.i32], []⟩]
      functions := #[.defined 0 [.i64]
        #[.localGet 0, .globalSet 0, .const (.i64 5), .localSet 1, .blockEnd]]
      globals := #[⟨.i32, true, .init (.const (.i32 0))⟩]
      tables := #[⟨⟨2, none⟩, none⟩]
      elements := [⟨0, .const (.i32 1), [0]⟩] }
  limits := {}
  bridge := .unavailable

/-- Its machine before anything is called. -/
def unstored : Machine where
  ip := ⟨0, 0⟩
  stack := .empty 1048576
  frames := []
  globals := #[.i32 0]
  memories := #[]
  tables := #[#[none, some 0]]

/-- It, called with a seven and stopped before its end. -/
def stored : Run :=
  Execution.runEntry ⟨storing, false, (Breakpoints.add {} (.code ⟨0, 4⟩)).2⟩ 9 0 [.i32 7] unstored

theorem stores_stay_typed_storing :
    Operated storing.module storing.limits stored.execution ∧
      stored.execution.machine.globals = #[.i32 7] ∧
      stored.execution.machine.frames.map Frame.locals = [#[.i32 7, .i64 5]] ∧
      ∃ new, instantiate? storing.module storing.limits = .ok new ∧
        Stored storing.module new stored.execution.machine := by
  have hnew : instantiate? storing.module storing.limits = .ok unstored := by
    unfold instantiate? storing
    simp only [List.map_toArray, List.map_cons, List.map_nil]
    rfl
  have hcreated : Operated storing.module storing.limits ⟨unstored, .uninitialized⟩ := by
    refine .created ?_
    unfold ofModule?
    simp only [hnew]
    rfl
  have hcall : Execution.call ⟨storing, false, (Breakpoints.add {} (.code ⟨0, 4⟩)).2⟩ 9 0 [.i32 7]
      ⟨unstored, .uninitialized⟩ = .ok stored := rfl
  have hcalled : Operated storing.module storing.limits stored.execution :=
    .called .unavailable false (Breakpoints.add {} (.code ⟨0, 4⟩)).2 9 hcreated hcall
  exact ⟨hcalled, rfl, rfl, (stores_stay_typed _ _).1 _ hcalled⟩

end WasmDebugger.Machine
