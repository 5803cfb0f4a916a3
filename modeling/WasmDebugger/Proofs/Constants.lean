import Mathlib.Logic.Relation
import WasmDebugger.Proofs.Faults
import WasmDebugger.Proofs.Stores
import WasmDebugger.Proofs.Writes

/-!
# Constants

Assigning to a global that is declared immutable is a fault. The host is not held to that: what it
hands back replaces all globals, and only their number and types are looked at.

* `Module.IsConstant`: a global that is declared immutable.
* `HandedBack`: the globals are those that the host has answered with.
* `constant_dispatch`, `constant_entry`: nothing else changes a constant, neither an instruction nor
  entering a function.
* `Bridge.KeepsConstants`: what is asked of a host.
* **`constant_changes_only_by_host`**: both together, and with hosts that keep constants a constant
  has after every operation the value that it was given first.
* `host_overwrites_constant`: a host that does not, at a concrete call.
-/

namespace WasmDebugger

/-- Global `i` is declared immutable. -/
def Module.IsConstant (module : Module) (i : Nat) : Prop :=
  ∃ g, module.globals[i]? = some g ∧ g.isMutable = false

/-- A host that hands every constant back as it was shown it. -/
def Bridge.KeepsConstants (module : Module) (b : Bridge) : Prop :=
  ∀ call r, b.fulfill call = .result r →
    ∀ i, module.IsConstant i → r.globals[i]? = call.globals[i]?

/-- A time limit adds no answers. -/
theorem Bridge.fulfill_of_timed {inner : Bridge} {limit : Nat} {call : ImportCall}
    {r : ImportResult} (h : (Bridge.timed inner limit).fulfill call = .result r) :
    inner.fulfill call = .result r := by
  unfold fulfill respond at h
  simp only at h
  split at h
  · exact absurd h (by simp)
  · split at h
    · exact absurd h (by simp)
    · exact h

/-- A host keeps constants under a time limit, too. -/
theorem Bridge.KeepsConstants.timed {module : Module} {inner : Bridge}
    (h : inner.KeepsConstants module) (limit : Nat) :
    (Bridge.timed inner limit).KeepsConstants module :=
  fun call r hr => h call r (fulfill_of_timed hr)

namespace Machine

open Execution (enterEntry)

variable {setup : Setup} {watch : Breakpoints} {m asking : Machine} {i : Nat} {next : Position}
  {call : ImportCall} {step : Step}

/-! ## What the host hands back -/

/-- The host has been asked, and the globals are those of its answer. -/
def HandedBack (setup : Setup) (asked : Option ImportCall) (step : Step) : Prop :=
  ∃ call r, asked = some call ∧ setup.bridge.fulfill call = .result r ∧
    step.machine.globals = r.globals

/-- A call shows the host the globals as they are. -/
theorem globals_of_importCall? {f : Nat} (h : importCall? setup f m = some call) :
    call.globals = m.globals := by
  obtain ⟨_, _, _, _, _, hcall⟩ := importCall?_eq_some h
  rw [hcall]

theorem globals_of_asks? {instr : Instr} (h : m.asks? setup instr = some call) :
    call.globals = m.globals := by
  cases instr with
  | call f => exact globals_of_importCall? h
  | callIndirect type =>
    obtain ⟨f, -, h⟩ := Option.bind_eq_some_iff.mp h
    split at h
    · have hshown := globals_of_importCall? h
      exact hshown
    · exact absurd h (by simp)
  | _ => exact absurd h (by simp [asks?])

/-- An answer hands globals back or leaves them alone. -/
theorem Answered.globals (h : Answered setup m asking next call step)
    (hasking : asking.globals = m.globals) :
    step.machine.globals = m.globals ∨ HandedBack setup (some call) step := by
  cases h with
  | failed _ | refused _ _ _ | full _ _ _ => exact Or.inl rfl
  | threw _ => exact Or.inl hasking
  | @taken r _ _ hreply _ _ _ _ _ _ hglobals _ => exact Or.inr ⟨call, r, rfl, hreply, hglobals⟩

/-! ## Instructions -/

/-- Assigning to a global leaves constants alone. -/
theorem constant_globalSet (hi : setup.module.IsConstant i) (index : Nat) :
    (m.executeGlobalSet setup watch index).machine.globals[i]? = m.globals[i]? := by
  obtain ⟨g, hg, himmutable⟩ := hi
  unfold executeGlobalSet
  split
  · rfl
  · split
    · rename_i hguard
      obtain ⟨-, hmutable⟩ := Bool.and_eq_true_iff.mp hguard
      have hne : index ≠ i := by
        rintro rfl
        unfold isMutable at hmutable
        rw [hg, Option.any_some, himmutable] at hmutable
        exact absurd hmutable (by simp)
      rw [machine_watchedAt]
      exact Array.getElem?_setIfInBounds_ne hne
    · rfl

/-- **No instruction changes a constant**, but for the answer of the host. -/
theorem constant_execute (hi : setup.module.IsConstant i) (instr : Instr) :
    (m.execute setup watch instr).machine.globals[i]? = m.globals[i]? ∨
      HandedBack setup (m.asks? setup instr) (m.execute setup watch instr) := by
  have hwritten := execute_written setup watch m instr
  generalize hstep : m.execute setup watch instr = step at hwritten ⊢
  cases hwritten with
  | kept h => exact Or.inl (by rw [h.globals])
  | assigned hinstr _ _ =>
    -- what is written does not tell which globals are mutable, the guard of the instruction does
    rw [← hstep, hinstr]
    exact Or.inl (constant_globalSet hi _)
  | stored _ hglobals _ => exact Or.inl (by rw [machine_watchedAt, hglobals])
  | grown _ _ _ hglobals _ => exact Or.inl (congrArg (·[i]?) hglobals)
  | answered hasks ha =>
    rw [hasks]
    exact (ha.globals rfl).imp_left (congrArg (·[i]?))

theorem globals_of_hostCall? (h : hostCall? setup m = some call) : call.globals = m.globals := by
  obtain ⟨_, -, hasks⟩ := Option.bind_eq_some_iff.mp h
  exact globals_of_asks? hasks

theorem constant_dispatch (setup : Setup) (watch : Breakpoints) (m : Machine)
    (hi : setup.module.IsConstant i) :
    (m.dispatch setup watch).machine.globals[i]? = m.globals[i]? ∨
      HandedBack setup (hostCall? setup m) (m.dispatch setup watch) := by
  unfold dispatch hostCall?
  split
  · exact Or.inl rfl
  · cases hfetch : fetch? setup m.ip with
    | none => exact Or.inl rfl
    | some instr => exact constant_execute hi instr

/-! ## Entering a function -/

theorem globals_of_entryCall? {f : Nat} {args : List Value}
    (h : entryCall? setup f args m = some call) : call.globals = m.globals := by
  obtain ⟨pushed, hpushed, hcall⟩ := importCall?_of_entryCall? h
  exact (globals_of_importCall? hcall).trans hpushed

/-- **Nor does entering a function change a constant.** -/
theorem constant_entry (setup : Setup) (f : Nat) (args : List Value) (m : Machine) (i : Nat) :
    (enterEntry setup f args m).machine.globals[i]? = m.globals[i]? ∨
      HandedBack setup (entryCall? setup f args m) (enterEntry setup f args m) := by
  rcases enterEntry_answered setup f args m with
    hkeeps | ⟨call, r, m', hasked, hreply, h, hback, -⟩
  · exact Or.inl (by rw [hkeeps.globals])
  · rw [h]
    exact Or.inr ⟨call, r, hasked, hreply, hback⟩

/-- What hosts that keep constants hand back has the constants of before. -/
theorem HandedBack.constant {asked : Option ImportCall} (h : HandedBack setup asked step)
    (hshown : ∀ call, asked = some call → call.globals = m.globals)
    (hb : setup.bridge.KeepsConstants setup.module) (hi : setup.module.IsConstant i) :
    step.machine.globals[i]? = m.globals[i]? := by
  obtain ⟨call, r, hasked, hreply, hglobals⟩ := h
  rw [hglobals, hb call r hreply i hi, hshown call hasked]

end Machine

namespace Execution

open Machine

variable {module : Module} {limits : Limitation} {setup : Setup} {e e' new : Execution} {i : Nat}

/-! ## Histories -/

/-- One operation takes an execution to another, with a host of some kind. -/
def Operates (module : Module) (limits : Limitation) (hosts : Bridge → Prop) (e e' : Execution) :
    Prop :=
  ∃ bridge tracing watch r, hosts bridge ∧
    Operation ⟨⟨module, limits, bridge⟩, tracing, watch⟩ e r ∧ r.execution = e'

/-- **An operation keeps constants** when its host does. -/
theorem Operates.constant (h : Operates module limits (Bridge.KeepsConstants module) e e')
    (hi : module.IsConstant i) : e'.machine.globals[i]? = e.machine.globals[i]? := by
  obtain ⟨bridge, tracing, watch, r, hb, hoperation, rfl⟩ := h
  refine hoperation.keeps (P := fun m => m.globals[i]? = e.machine.globals[i]?) ?_ ?_ rfl
  · intro f args m hm
    rcases constant_entry ⟨module, limits, bridge⟩ f args m i with hsame | hback
    · exact hsame.trans hm
    · exact (hback.constant (fun _ => globals_of_entryCall?) hb hi).trans hm
  · intro m hm
    rcases constant_dispatch ⟨module, limits, bridge⟩ watch m hi with hsame | hback
    · exact hsame.trans hm
    · exact (hback.constant (fun _ => globals_of_hostCall?) hb hi).trans hm

/-- A new execution has a value for every constant. -/
theorem exists_constant (h : ofModule? (some module) limits = .ok new)
    (hi : module.IsConstant i) : ∃ v, new.machine.globals[i]? = some v := by
  obtain ⟨g, hg, -⟩ := hi
  obtain ⟨_, -, hstored⟩ := stored_of_reachable (reachable_ofModule? h)
  have htype : (new.machine.globals.map Value.type)[i]? = some g.type := by
    rw [hstored.globals, Array.getElem?_map, hg, Option.map_some]
  rw [Array.getElem?_map] at htype
  obtain ⟨v, hv, -⟩ := Option.map_eq_some_iff.mp htype
  exact ⟨v, hv⟩

/-- **Only the host changes a constant.** Whatever the host and the machine, an instruction changes
a global that is declared immutable only when it has asked the host and has taken over its globals,
and so it is with entering a function. With hosts that hand constants back as they were, such a
global has after every sequence of operations the value from after instantiation. -/
theorem constant_changes_only_by_host (setup : Setup) {i : Nat}
    (hi : setup.module.IsConstant i) :
    (∀ watch m, (m.dispatch setup watch).machine.globals[i]? = m.globals[i]? ∨
      HandedBack setup (hostCall? setup m) (m.dispatch setup watch)) ∧
    (∀ f args m, (enterEntry setup f args m).machine.globals[i]? = m.globals[i]? ∨
      HandedBack setup (entryCall? setup f args m) (enterEntry setup f args m)) ∧
    ∀ new e, ofModule? (some setup.module) setup.limits = .ok new →
      Relation.ReflTransGen
        (Operates setup.module setup.limits (Bridge.KeepsConstants setup.module)) new e →
      ∃ v, new.machine.globals[i]? = some v ∧ e.machine.globals[i]? = some v := by
  refine ⟨fun watch m => constant_dispatch setup watch m hi,
    fun f args m => constant_entry setup f args m i, ?_⟩
  intro new e hnew hrun
  obtain ⟨v, hv⟩ := exists_constant hnew hi
  refine ⟨v, hv, ?_⟩
  induction hrun with
  | refl => exact hv
  | tail _ hstep ih => exact (hstep.constant hi).trans ih

/-- A constant and a variable, and a function that calls the host. -/
def asking : Module where
  types := #[⟨[], []⟩]
  functions := #[.imported 0 ⟨"env", "set"⟩, .defined 0 [] #[.call 0, .blockEnd]]
  globals := #[⟨.i32, false, .init (.const (.i32 5))⟩, ⟨.i32, true, .init (.globalGet 0)⟩]

/-- A host that puts a seven into one of them, in three milliseconds. -/
def sevenInto (i : Nat) : Bridge :=
  .timed (.host (Handlers.addIndex {} 0 fun call =>
    ⟨.result ⟨none, call.globals.setIfInBounds i (.i32 7), call.memory⟩, 3⟩)) 30

/-- The execution before anything is called. -/
def unasked : Execution where
  machine :=
    { ip := ⟨0, 0⟩
      stack := .empty 1048576
      frames := []
      globals := #[.i32 5, .i32 5]
      memories := #[]
      tables := #[] }
  status := .uninitialized

/-- The function, called with that host. -/
def asked (i : Nat) : Run := runEntry ⟨⟨asking, {}, sevenInto i⟩, false, {}⟩ 9 1 [] unasked.machine

theorem ofModule?_asking : ofModule? (some asking) {} = .ok unasked := by
  unfold ofModule? instantiate? asking
  simp only [List.map_toArray, List.map_nil]
  rfl

theorem operates_asked {i : Nat} {hosts : Bridge → Prop} (h : hosts (sevenInto i)) :
    Operates asking {} hosts unasked (asked i).execution := by
  have hcall : call ⟨⟨asking, {}, sevenInto i⟩, false, {}⟩ 9 1 [] unasked = .ok (asked i) := rfl
  exact ⟨sevenInto i, false, {}, asked i, h, .called hcall, rfl⟩

/-- Only the first global is a constant. -/
theorem eq_zero_of_isConstant_asking (h : asking.IsConstant i) : i = 0 := by
  obtain ⟨g, hg, himmutable⟩ := h
  match i with
  | 0 => rfl
  | 1 =>
    cases hg
    cases himmutable
  | _ + 2 => exact absurd hg (by simp [asking])

/-- The host that writes to the variable keeps the constant. -/
theorem keepsConstants_sevenInto : (sevenInto 1).KeepsConstants asking := by
  refine Bridge.KeepsConstants.timed (fun call r hr i hi => ?_) 30
  cases eq_zero_of_isConstant_asking hi
  unfold Bridge.fulfill Bridge.respond Handlers.find? Handlers.addIndex at hr
  by_cases hf : call.function = 0
  · simp only [hf, List.find?_cons, UInt32.toNat_zero, decide_true] at hr
    cases hr
    exact Array.getElem?_setIfInBounds_ne (by decide)
  · simp [Ne.symm hf, Bridge.noHandler] at hr

theorem constant_changes_only_by_host_variable :
    asking.IsConstant 0 ∧ (asked 1).execution.machine.globals = #[.i32 5, .i32 7] ∧
      ∃ v, unasked.machine.globals[0]? = some v ∧
        (asked 1).execution.machine.globals[0]? = some v := by
  have hconstant : asking.IsConstant 0 := ⟨_, rfl, rfl⟩
  have hrun := operates_asked keepsConstants_sevenInto
  exact ⟨hconstant, rfl, (constant_changes_only_by_host ⟨asking, {}, .unavailable⟩ hconstant).2.2
    _ _ ofModule?_asking (.single hrun)⟩

/-- **A host can overwrite a constant**: it hands another value of its type back. -/
theorem host_overwrites_constant :
    asking.IsConstant 0 ∧ ofModule? (some asking) {} = .ok unasked ∧
      Operates asking {} (fun _ => True) unasked (asked 0).execution ∧
      unasked.machine.globals[0]? = some (.i32 5) ∧
      (asked 0).execution.machine.globals[0]? = some (.i32 7) :=
  ⟨⟨_, rfl, rfl⟩, ofModule?_asking, operates_asked trivial, rfl, rfl⟩

end Execution

end WasmDebugger
