import WasmDebugger.Machine.Control
import WasmDebugger.Proofs.OperandStack

/-!
# What the host is asked, and what comes of it

Calling an imported function takes one request to the bridge, and the reply decides the rest.

* `importCall?`: the request, if the function is imported and the operands suit it.
* `Answered`: what the five kinds of reply come to. It is stated for two machines, so that it also
  fits an instruction that has taken an operand off before it asks: a fault leaves the first, an
  exception the second.
* `callImport_answered`, `call_answered`: imported functions are answered so, and nothing else
  happens.
-/

namespace WasmDebugger.Machine

/-- What calling `f` asks the host: nothing unless it is imported and the operands suit it. -/
def importCall? (setup : Setup) (f : Nat) (m : Machine) : Option ImportCall :=
  match setup.module.functions[f]?, setup.module.funcType? f with
  | some (.imported _ name), some type =>
    (m.stack.typed? type.params).map fun args =>
      ⟨f, name, args, m.globals, (m.memory?.map (·.bytes)).getD .empty⟩
  | _, _ => none

/-- **What the reply to a request comes to.** Without an answer that can be used, a fault leaves
`m` and an exception leaves `asking`; with one, globals and memory are the host's. -/
inductive Answered (setup : Setup) (m asking : Machine) (next : Position) (call : ImportCall) :
    Step → Prop where
  | failed {message : String} (h : setup.bridge.fulfill call = .failed message) :
      Answered setup m asking next call
        (.fault (.refusedImport ⟨call.function, call.name, .host message⟩) m)
  | threw {message : String} (h : setup.bridge.fulfill call = .threw message) :
      Answered setup m asking next call (.threw message asking)
  | refused {r : ImportResult} {type : FuncType} {cause : RefusalCause}
      (h : setup.bridge.fulfill call = .result r)
      (ht : setup.module.funcType? call.function = some type)
      (hr : refusal? type call.globals r = some cause) :
      Answered setup m asking next call
        (.fault (.refusedImport ⟨call.function, call.name, cause⟩) m)
  /-- The returned value finds no room. -/
  | full {r : ImportResult} {type : FuncType} (h : setup.bridge.fulfill call = .result r)
      (ht : setup.module.funcType? call.function = some type)
      (hr : refusal? type call.globals r = none) :
      Answered setup m asking next call (.fault .valueStackExhausted m)
  | taken {r : ImportResult} {type : FuncType} {m' : Machine}
      (h : setup.bridge.fulfill call = .result r)
      (ht : setup.module.funcType? call.function = some type)
      (hr : refusal? type call.globals r = none) (hip : m'.ip = next)
      (hframes : m'.frames = asking.frames) (htables : m'.tables = asking.tables)
      (hstack : asking.stack.Shift m'.stack) (hglobals : m'.globals = r.globals)
      (hmemories : m'.memories =
        asking.memories.modify 0 fun memory => memory.overwriteFront r.memory) :
      Answered setup m asking next call (.next m')

variable {setup : Setup} {f : Nat} {m asking : Machine} {next : Position} {call : ImportCall}
  {step : Step}

/-- A request shows the host the globals as they are, and it is about an imported function. -/
theorem importCall?_eq_some (h : importCall? setup f m = some call) :
    ∃ t type, setup.module.functions[f]? = some (.imported t call.name) ∧
      setup.module.funcType? f = some type ∧ m.stack.typed? type.params = some call.args ∧
      call = ⟨f, call.name, call.args, m.globals, (m.memory?.map (·.bytes)).getD .empty⟩ := by
  unfold importCall? at h
  split at h
  · rename_i t name type hf ht
    obtain ⟨args, hargs, rfl⟩ := Option.map_eq_some_iff.mp h
    exact ⟨t, type, hf, ht, hargs, rfl⟩
  · exact absurd h (by simp)

/-! ## Imported functions -/

/-- Taking over a result changes what `Answered.taken` says, or finds no room. -/
theorem commit_cases {types : List ValueType} {args : List Value} (r : ImportResult)
    (h : m.stack.typed? types = some args) :
    m.commit args r = .fault .valueStackExhausted m ∨
      ∃ s, m.stack.Shift s ∧ m.commit args r = .next { m with
        stack := s
        globals := r.globals
        memories := m.memories.modify 0 fun memory => memory.overwriteFront r.memory } := by
  have hn : args.length ≤ m.stack.available := by
    rw [OperandStack.length_of_typed? h]
    exact (OperandStack.values_of_typed? h).1
  have hpop := OperandStack.shift_pop hn
  unfold commit
  simp only
  split
  · rw [OperandStack.restoreAll_pop h]
    exact Or.inl rfl
  · rename_i s hs
    refine Or.inr ⟨s, ?_, rfl⟩
    split at hs
    · cases hs
      exact hpop
    · exact hpop.trans (OperandStack.shift_push? hs)

/-- **An imported function that is asked for is answered.** The position stays. -/
theorem callImport_answered (h : importCall? setup f m = some call) :
    Answered setup m m m.ip call (m.callImport setup f) := by
  obtain ⟨t, type, hf, ht, hargs, hcall⟩ := importCall?_eq_some h
  have hfunction : call.function = f := by rw [hcall]
  have hglobals : call.globals = m.globals := by rw [hcall]
  unfold callImport
  simp only [hf, ht, hargs, ← hcall]
  cases hreply : setup.bridge.fulfill call with
  | failed message =>
    rw [← hfunction]
    exact .failed hreply
  | threw message => exact .threw hreply
  | result r =>
    simp only
    rw [← hglobals, ← hfunction]
    cases hr : refusal? type call.globals r with
    | some cause => exact .refused hreply (hfunction ▸ ht) hr
    | none =>
      simp only
      rcases commit_cases r hargs with hc | ⟨s, hs, hc⟩
      · rw [hc]
        exact .full hreply (hfunction ▸ ht) hr
      · rw [hc]
        exact .taken hreply (hfunction ▸ ht) hr rfl rfl rfl hs rfl rfl

/-- Otherwise the call is a fault, and the host does not hear of it. -/
theorem callImport_of_none (h : importCall? setup f m = none) :
    m.callImport setup f = .fault .typeMismatch m := by
  unfold importCall? at h
  unfold callImport
  split
  · rename_i hf ht
    simp only [hf, ht, Option.map_eq_none_iff] at h
    rw [h]
  · rfl

/-- A call to an imported function goes on behind the instruction. -/
theorem call_answered (h : importCall? setup f m = some call) :
    Answered setup m m ⟨m.ip.function, m.ip.instr + 1⟩ call (m.call setup f) := by
  have ha := callImport_answered h
  obtain ⟨t, type, hf, ht, -, -⟩ := importCall?_eq_some h
  unfold Machine.call
  simp only [hf, ht]
  generalize m.callImport setup f = step at ha
  cases ha with
  | failed h => exact .failed h
  | threw h => exact .threw h
  | refused h ht hr => exact .refused h ht hr
  | full h ht hr => exact .full h ht hr
  | @taken _ _ m' h ht hr hip hframes htables hstack hglobals hmemories =>
    refine .taken h ht hr ?_ hframes htables hstack hglobals hmemories
    show (⟨m'.ip.function, m'.ip.instr + 1⟩ : Position) = _
    rw [hip]

/-- An operand that is put back at a fault makes the machine from before. -/
theorem Answered.putBack {v : Value} (h : Answered setup asking asking next call step)
    (hm : asking.setStack (asking.stack.restore v) = m) :
    Answered setup m asking next call (step.putBack v) := by
  subst hm
  cases h with
  | failed h => exact .failed h
  | threw h => exact .threw h
  | refused h ht hr => exact .refused h ht hr
  | full h ht hr => exact .full h ht hr
  | taken h ht hr hip hframes htables hstack hglobals hmemories =>
    exact .taken h ht hr hip hframes htables hstack hglobals hmemories

end WasmDebugger.Machine
