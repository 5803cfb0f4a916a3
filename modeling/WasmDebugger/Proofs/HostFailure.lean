import WasmDebugger.Config
import WasmDebugger.Proofs.Reachable

/-!
# Calls that the host fails

An instruction asks the host when it calls an imported function, by its index or through the
table. When that comes to nothing, the machine is to be as it was, so that the same instruction
asks the same again.

* `asks?`, `hostCall?`: what an instruction asks, and what the one at the position does.
* `execute_answered`: whatever asks the host is answered like an imported function.
* `Unusable`: the replies that cannot be used.
* **`failed_call_untouched_iff`**: a call that comes to nothing leaves the machine untouched, unless
  it went through the table and the host ended in an exception. With a time limit no exception
  reaches the machine.
* `exception_drops_slot`: that one case, at a concrete call. The slot has been taken off the stack
  and is not put back, so the instruction cannot be carried out again.
-/

namespace WasmDebugger

/-! ## Time limits -/

/-- Under a time limit an exception is a failure like any other. -/
theorem Bridge.fulfill_timed_ne_threw (inner : Bridge) (limit : Nat) (call : ImportCall)
    (message : String) : (Bridge.timed inner limit).fulfill call ≠ .threw message := by
  unfold fulfill respond
  simp only
  split
  · simp
  · split
    · simp
    · rename_i hnot
      exact hnot message

/-- A configuration with a time limit keeps exceptions away from the machine. -/
theorem Config.fulfill_makeBridge_ne_threw {c : Config} (h : 0 < c.importTimeout)
    (call : ImportCall) (message : String) : c.makeBridge.fulfill call ≠ .threw message := by
  have hnot : ¬ c.importTimeout ≤ 0 := by omega
  unfold makeBridge
  split
  · exact fun hc => nomatch hc
  · exact fun hc => nomatch hc
  · rw [if_neg hnot]
    exact Bridge.fulfill_timed_ne_threw _ _ _ _

namespace Machine

/-! ## What an instruction asks -/

/-- What an instruction asks the host. A call through the table asks nothing unless the function
has the signature that the instruction names. -/
def asks? (setup : Setup) (m : Machine) : Instr → Option ImportCall
  | .call f => importCall? setup f.toNat m
  | .callIndirect type =>
    (m.callee? (.callIndirect type)).bind fun f =>
      if setup.module.funcType? f = setup.module.types[type.toNat]? then
        importCall? setup f (m.setStack (m.stack.pop 1))
      else none
  | _ => none

/-- What the instruction at the position asks the host. -/
def hostCall? (setup : Setup) (m : Machine) : Option ImportCall :=
  (fetch? setup m.ip).bind (m.asks? setup)

/-- The instruction at the position calls through the table. -/
def CallsThroughTable (setup : Setup) (m : Machine) : Prop :=
  ∃ type, fetch? setup m.ip = some (.callIndirect type)

/-- Replies that cannot be used: a failure, an exception, or a result that does not suit the
signature or the globals. -/
inductive Unusable (setup : Setup) (call : ImportCall) : Reply → Prop where
  | failed (message : String) : Unusable setup call (.failed message)
  | threw (message : String) : Unusable setup call (.threw message)
  | refused {r : ImportResult} {type : FuncType} {cause : RefusalCause}
      (ht : setup.module.funcType? call.function = some type)
      (hr : refusal? type call.globals r = some cause) : Unusable setup call (.result r)

variable {setup : Setup} {watch : Breakpoints} {m asking : Machine} {i : Instr}
  {next : Position} {call : ImportCall} {step : Step}

/-! ## What it comes to -/

/-- A call through the table that asks is a call of the function in the slot, and a fault puts the
slot back. -/
theorem callIndirect_of_asks? {type : UInt32} (h : m.asks? setup (.callIndirect type) = some call) :
    ∃ slot, m.stack.peek? 0 = some (.i32 slot) ∧
      importCall? setup call.function (m.setStack (m.stack.pop 1)) = some call ∧
      m.callIndirect setup type.toNat =
        ((m.setStack (m.stack.pop 1)).call setup call.function).putBack (.i32 slot) := by
  obtain ⟨f, hcallee, h⟩ := Option.bind_eq_some_iff.mp h
  obtain ⟨slot, hslot, hmap⟩ := Option.bind_eq_some_iff.mp hcallee
  obtain ⟨entry, hentry, rfl⟩ := Option.map_eq_some_iff.mp hmap
  split at h
  · rename_i htypes
    obtain ⟨-, expected, -, hexpected, -, hshown⟩ := importCall?_eq_some h
    have hfunction : call.function = entry.toNat := by rw [hshown]
    refine ⟨slot, ?_, hfunction ▸ h, ?_⟩
    · obtain ⟨v, hv, hb⟩ := Option.bind_eq_some_iff.mp hslot
      rw [Value.asInt?_eq_some_iff] at hb
      rw [hv, hb]
      rfl
    · have hslot : (m.stack.peek? 0).bind (Value.asInt? .w32) = some slot := hslot
      unfold callIndirect
      rw [hslot, hfunction]
      simp only [hentry, ← htypes, hexpected, if_true]
  · exact absurd h (by simp)

/-- The machine from before, with its top operand off and on again. -/
theorem setStack_restore_pop {v : Value} (h : m.stack.peek? 0 = some v) :
    (m.setStack (m.stack.pop 1)).setStack ((m.stack.pop 1).restore v) = m := by
  rw [OperandStack.restore_pop h]
  rfl

/-- **Whatever asks the host is answered**: a fault puts the slot of a call through the table
back, an exception does not. -/
theorem execute_answered (h : m.asks? setup i = some call) :
    Answered setup m (m.setStack (m.decided i)) ⟨m.ip.function, m.ip.instr + 1⟩ call
      (m.execute setup watch i) := by
  cases i with
  | call f => exact call_answered h
  | callIndirect type =>
    obtain ⟨slot, hslot, hcall, hexecute⟩ := callIndirect_of_asks? h
    show Answered _ _ _ _ _ (m.callIndirect setup type.toNat)
    rw [hexecute]
    exact (call_answered hcall).putBack (setStack_restore_pop hslot)
  | _ => exact absurd h (by simp [asks?])

/-- The instruction at the position is answered when it asks. -/
theorem dispatch_answered (watch : Breakpoints) (hf : m.frames ≠ [])
    (h : hostCall? setup m = some call) :
    ∃ i, fetch? setup m.ip = some i ∧
      Answered setup m (m.setStack (m.decided i)) ⟨m.ip.function, m.ip.instr + 1⟩ call
        (m.dispatch setup watch) := by
  obtain ⟨i, hi, hasks⟩ := Option.bind_eq_some_iff.mp h
  refine ⟨i, hi, ?_⟩
  rw [dispatch_eq_execute hf hi]
  exact execute_answered hasks

/-- Execution does not go on after a reply that cannot be used. -/
theorem Answered.onward?_of_unusable (h : Answered setup m asking next call step)
    (hu : Unusable setup call (setup.bridge.fulfill call)) : step.onward? = none := by
  cases h with
  | taken hreply ht hr _ _ _ _ _ _ =>
    rw [hreply] at hu
    cases hu with
    | refused ht' hr' =>
      rw [ht] at ht'
      cases ht'
      rw [hr] at hr'
      exact absurd hr' (by simp)
  | failed _ | threw _ | refused _ _ _ | full _ _ _ => rfl

/-- A call that comes to nothing leaves the machine from before, or it has ended in an
exception and leaves the machine that asked. -/
theorem Answered.machine_of_onward? (h : Answered setup m asking next call step)
    (hstep : step.onward? = none) :
    step.machine = m ∧ (∀ message, setup.bridge.fulfill call ≠ .threw message) ∨
      step.machine = asking ∧ ∃ message, setup.bridge.fulfill call = .threw message := by
  cases h with
  | failed hreply | refused hreply _ _ | full hreply _ _ =>
    refine Or.inl ⟨rfl, fun message => ?_⟩
    rw [hreply]
    exact fun hc => nomatch hc
  | threw hreply => exact Or.inr ⟨rfl, _, hreply⟩
  | taken _ _ _ _ _ _ _ _ _ => exact absurd hstep (by simp [Step.onward?])

/-- The operand that decides where to go is there when the host is asked. -/
theorem deciding_le_of_asks? (h : m.asks? setup i = some call) :
    i.deciding ≤ m.stack.available := by
  cases i with
  | callIndirect type =>
    obtain ⟨f, hcallee, -⟩ := Option.bind_eq_some_iff.mp h
    obtain ⟨slot, hslot, -⟩ := Option.bind_eq_some_iff.mp hcallee
    exact available_of_top? hslot
  | _ => first | exact Nat.zero_le _ | exact absurd h (by simp [asks?])

/-- Only a call through the table takes an operand off before it asks. -/
theorem asking_eq_iff (h : m.asks? setup i = some call) :
    m.setStack (m.decided i) = m ↔ ∀ type, i ≠ .callIndirect type := by
  constructor
  · rintro heq type rfl
    have hle := deciding_le_of_asks? h
    have hone : Instr.deciding (.callIndirect type) = 1 := rfl
    have hsize : m.stack.size - 1 = m.stack.size :=
      congrArg (fun m : Machine => m.stack.size) heq
    have := OperandStack.available_le (s := m.stack)
    omega
  · intro hnot
    cases i with
    | callIndirect type => exact absurd rfl (hnot type)
    | call f => rfl
    | _ => exact absurd h (by simp [asks?])

/-- **A call that comes to nothing leaves the machine untouched**, but for one case. When the
instruction at the position asks the host:

* it does not go on after a reply that cannot be used;
* when it does not go on, for that or any other reason, position, operands, frames, globals,
  memories and tables are those from before and the instruction asks the same again, unless it
  calls through the table and the host ended in an exception;
* under a configuration with a time limit there is no exception. -/
theorem failed_call_untouched_iff (watch : Breakpoints) (hf : m.frames ≠ [])
    (hc : hostCall? setup m = some call) :
    (Unusable setup call (setup.bridge.fulfill call) →
      (m.dispatch setup watch).onward? = none) ∧
    ((m.dispatch setup watch).onward? = none →
      ((m.dispatch setup watch).machine = m ∧
          hostCall? setup (m.dispatch setup watch).machine = some call ↔
        ¬ (m.CallsThroughTable setup ∧
          ∃ message, setup.bridge.fulfill call = .threw message))) ∧
    ∀ c : Config, 0 < c.importTimeout → setup.bridge = c.makeBridge →
      (m.dispatch setup watch).onward? = none → (m.dispatch setup watch).machine = m := by
  obtain ⟨i, hi, hanswered⟩ := dispatch_answered watch hf hc
  have hasks : m.asks? setup i = some call := by
    obtain ⟨i', hi', hasks⟩ := Option.bind_eq_some_iff.mp hc
    rw [hi] at hi'
    cases hi'
    exact hasks
  have htable : m.CallsThroughTable setup ↔ ¬ m.setStack (m.decided i) = m := by
    rw [asking_eq_iff hasks]
    unfold CallsThroughTable
    rw [hi]
    simp
  refine ⟨hanswered.onward?_of_unusable, fun hstep => ?_, fun c htimeout hbridge hstep => ?_⟩
  · rcases hanswered.machine_of_onward? hstep with ⟨hm, hthrew⟩ | ⟨hm, message, hthrew⟩
    · rw [hm]
      exact iff_of_true ⟨rfl, hc⟩ fun h => h.2.elim hthrew
    · constructor
      · rintro ⟨hkept, -⟩ ⟨hcalls, -⟩
        exact htable.mp hcalls (hm ▸ hkept)
      · intro hnot
        have hkept : (m.dispatch setup watch).machine = m := by
          rw [hm]
          by_contra hne
          exact hnot ⟨htable.mpr hne, message, hthrew⟩
        exact ⟨hkept, hkept.symm ▸ hc⟩
  · rcases hanswered.machine_of_onward? hstep with ⟨hm, -⟩ | ⟨-, message, hthrew⟩
    · exact hm
    · rw [hbridge] at hthrew
      exact absurd hthrew (Config.fulfill_makeBridge_ne_threw htimeout call message)

/-! ## A call through the table -/

/-- A function that calls an imported one through the table. -/
def throughTable (bridge : Bridge) : Setup where
  module :=
    { types := #[⟨[], []⟩]
      functions := #[.imported 0 ⟨"env", "f"⟩,
        .defined 0 [] #[.const (.i32 0), .callIndirect 0, .blockEnd]]
      tables := #[⟨⟨1, none⟩, none⟩]
      elements := [⟨0, .const (.i32 0), [0]⟩] }
  limits := {}
  bridge := bridge

/-- It, about to call. -/
def aboutToAsk : Machine where
  ip := ⟨1, 1⟩
  stack := (OperandStack.empty 1048576).restore (.i32 0)
  frames := [⟨1, #[], ⟨0, 0⟩, 0, []⟩]
  globals := #[]
  memories := #[]
  tables := #[#[some 0]]

/-- What it asks. -/
def asked : ImportCall := ⟨0, ⟨"env", "f"⟩, [], #[], .empty⟩

theorem reachable_aboutToAsk (bridge : Bridge) :
    Reachable (throughTable bridge).module {} aboutToAsk := by
  have hnew : instantiate? (throughTable bridge).module {} =
      .ok { aboutToAsk with ip := ⟨0, 0⟩, stack := .empty 1048576, frames := [] } := by
    unfold instantiate? throughTable
    simp only [List.map_toArray, List.map_cons, List.map_nil]
    rfl
  have hcalled : Reachable (throughTable bridge).module {}
      (Execution.enterEntry (throughTable bridge) 1 [] _).machine :=
    .called bridge (.created hnew) rfl
  exact .dispatched bridge {} hcalled

/-- Without a host the call is a fault, and the slot is back on the stack. -/
theorem failed_call_untouched_unavailable :
    aboutToAsk.frames ≠ [] ∧ hostCall? (throughTable .unavailable) aboutToAsk = some asked ∧
      (aboutToAsk.dispatch (throughTable .unavailable) {}).machine = aboutToAsk := by
  have hf : aboutToAsk.frames ≠ [] := by decide
  have hc : hostCall? (throughTable .unavailable) aboutToAsk = some asked := rfl
  have hkept := (failed_call_untouched_iff {} hf hc).2.1 rfl
  exact ⟨hf, hc, (hkept.mpr fun h => h.2.elim fun _ hthrew => nomatch hthrew).1⟩

/-- A host that ends in an exception. -/
def throwing : Bridge := .host { byIndex := [(0, fun _ => ⟨.threw "boom", 0⟩)] }

/-- **An exception costs a call through the table its slot**: the machine is not the one from
before, and carrying out the instruction again does not ask the host. -/
theorem exception_drops_slot :
    Reachable (throughTable throwing).module (throughTable throwing).limits aboutToAsk ∧
      hostCall? (throughTable throwing) aboutToAsk = some asked ∧
      throwing.fulfill asked = .threw "boom" ∧
      ∃ m, aboutToAsk.dispatch (throughTable throwing) {} = .threw "boom" m ∧
        m.stack.values ≠ aboutToAsk.stack.values ∧
        hostCall? (throughTable throwing) m = none ∧
        m.dispatch (throughTable throwing) {} = .fault .typeMismatch m :=
  ⟨reachable_aboutToAsk throwing, rfl, rfl, aboutToAsk.setStack (aboutToAsk.stack.pop 1), rfl,
    by decide, rfl, rfl⟩

end Machine

end WasmDebugger
