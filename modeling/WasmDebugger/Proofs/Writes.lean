import WasmDebugger.Proofs.HostFailure

/-!
# Who writes to globals and memory

Only five things change a global or a memory: assigning to a global, storing to memory, growing
it, and the answer of the host, asked by an instruction or from outside.

* `Step.Keeps`: the steps that leave globals and memories alone.
* `Written`: what an instruction can do to them, and the watchpoint that is looked up for it.
* **`execute_written`**: every instruction does one of these things.
* `enterEntry_answered`, `enterEntry_written`: entering a function does none, unless it is an
  imported one.
-/

namespace WasmDebugger

/-- Globals and memories are those of the machine before. -/
structure Step.Keeps (m : Machine) (step : Step) : Prop where
  globals : step.machine.globals = m.globals
  memories : step.machine.memories = m.memories

/-- Putting an operand back touches neither globals nor memories. -/
theorem Step.Keeps.putBack {m : Machine} {step : Step} (h : step.Keeps m) (v : Value) :
    (step.putBack v).Keeps m := by
  cases step with
  | fault f m' => exact ⟨h.globals, h.memories⟩
  | next m' | watched index m' | finished m' | threw message m' => exact h

namespace Machine

variable {setup : Setup} {watch : Breakpoints} {m m' : Machine} {i : Instr}

@[simp] theorem machine_watchedAt (m : Machine) (hit : Option UInt32) :
    (m.watchedAt hit).machine = m := by
  cases hit <;> rfl

/-! ## What an instruction does to them -/

/-- **What carrying out an instruction does to globals and memories.** A write of its own is
looked up in the registry; growth and the answer of the host are not. -/
inductive Written (setup : Setup) (watch : Breakpoints) (m : Machine) (i : Instr) : Step → Prop where
  | kept {step : Step} (h : step.Keeps m) : Written setup watch m i step
  | assigned {index : UInt32} {v : Value} {m' : Machine} (hi : i = .globalSet index)
      (hglobals : m'.globals = m.globals.setIfInBounds index.toNat v)
      (hmemories : m'.memories = m.memories) :
      Written setup watch m i (m'.watchedAt (watch.findGlobal index.toNat .write))
  | stored {op : StoreOp} {arg : MemArg} {base : BitVec 32} {n : Nat} {m' : Machine}
      (hi : i = .store op arg) (hglobals : m'.globals = m.globals)
      (hmemories : m'.memories =
        m.memories.modify 0 fun memory => memory.write (effective base arg) op.bytes n) :
      Written setup watch m i
        (m'.watchedAt (memoryWatch watch (effective base arg) op.bytes .write))
  | grown {memory grown : LinearMemory} {delta : UInt32} {m' : Machine} (hi : i = .memoryGrow)
      (hmemory : m.memory? = some memory) (hgrow : memory.grow? delta = some grown)
      (hglobals : m'.globals = m.globals)
      (hmemories : m'.memories = m.memories.setIfInBounds 0 grown) :
      Written setup watch m i (.next m')
  | answered {call : ImportCall} {step : Step} (h : m.asks? setup i = some call)
      (ha : Answered setup m (m.setStack (m.decided i)) ⟨m.ip.function, m.ip.instr + 1⟩ call step) :
      Written setup watch m i step

/-! ### Instructions that work on operands, locals and labels -/

theorem keeps_withStack (r : Except Fault OperandStack) : (m.withStack r).Keeps m := by
  cases r <;> exact ⟨rfl, rfl⟩

theorem keeps_push (v : Value) : (m.executePush v).Keeps m := by
  unfold executePush
  split <;> exact ⟨rfl, rfl⟩

theorem keeps_drop : m.executeDrop.Keeps m := by
  unfold executeDrop
  split <;> exact ⟨rfl, rfl⟩

theorem keeps_select : m.executeSelect.Keeps m := by
  unfold executeSelect
  split
  · split <;> exact ⟨rfl, rfl⟩
  · exact ⟨rfl, rfl⟩

theorem keeps_localGet (index : Nat) : (m.executeLocalGet index).Keeps m := by
  unfold executeLocalGet
  split
  · exact ⟨rfl, rfl⟩
  · exact keeps_push _

theorem keeps_localSet (index : Nat) (keep : Bool) : (m.executeLocalSet index keep).Keeps m := by
  unfold executeLocalSet
  split
  · split <;> exact ⟨rfl, rfl⟩
  · exact ⟨rfl, rfl⟩

theorem keeps_globalGet (index : Nat) : (m.executeGlobalGet watch index).Keeps m := by
  unfold executeGlobalGet
  split
  · exact ⟨rfl, rfl⟩
  · split
    · exact ⟨rfl, rfl⟩
    · constructor <;> rw [machine_watchedAt] <;> rfl

theorem keeps_load (op : LoadOp) (arg : MemArg) : (m.executeLoad watch op arg).Keeps m := by
  unfold executeLoad
  split
  · exact ⟨rfl, rfl⟩
  · split
    · exact ⟨rfl, rfl⟩
    · simp only
      split
      · exact ⟨rfl, rfl⟩
      · constructor <;> rw [machine_watchedAt] <;> rfl

theorem keeps_memorySize : m.executeMemorySize.Keeps m := by
  unfold executeMemorySize
  split
  · exact ⟨rfl, rfl⟩
  · exact keeps_push _

/-- Entering a label and going on somewhere. -/
theorem keeps_pushLabel (label : Label) (p : Nat) :
    (Step.next ((m.pushLabel label).setPosition p)).Keeps m := by
  unfold pushLabel
  split <;> exact ⟨rfl, rfl⟩

theorem keeps_block (r : Option ValueType) (t : Option Nat) : (m.executeBlock r t).Keeps m := by
  unfold executeBlock
  split
  · exact ⟨rfl, rfl⟩
  · exact keeps_pushLabel _ _

theorem keeps_loop : m.executeLoop.Keeps m := keeps_pushLabel _ _

theorem keeps_if (r : Option ValueType) (t arm : Option Nat) : (m.executeIf r t arm).Keeps m := by
  have hentered : ∀ (s : OperandStack) (label : Label) (p : Nat),
      (Step.next (((m.setStack s).pushLabel label).setPosition p)).Keeps m := by
    intro s label p
    have h := keeps_pushLabel (m := m.setStack s) label p
    exact ⟨h.globals, h.memories⟩
  unfold executeIf
  split
  · simp only
    split
    · split <;> exact hentered _ _ _
    · exact hentered _ _ _
  · exact ⟨rfl, rfl⟩

/-! ### Branches and returns -/

theorem keeps_return : (m.returnFromFunction setup).Keeps m := by
  unfold returnFromFunction
  split
  · exact ⟨rfl, rfl⟩
  · split
    · exact ⟨rfl, rfl⟩
    · simp only
      split <;> exact ⟨rfl, rfl⟩

theorem keeps_branch (depth : Nat) : (m.branch setup depth).Keeps m := by
  unfold branch
  split
  · exact ⟨rfl, rfl⟩
  · split
    · exact keeps_return
    · split
      · exact ⟨rfl, rfl⟩
      · split <;> exact ⟨rfl, rfl⟩

theorem keeps_end : (m.executeEnd setup).Keeps m := by
  unfold executeEnd
  split
  · exact ⟨rfl, rfl⟩
  · split
    · exact keeps_return
    · exact ⟨rfl, rfl⟩

/-- A branch that is decided by an operand keeps what the branch itself keeps. -/
theorem keeps_branch_decided (s : OperandStack) (depth : Nat) (v : Value) :
    (((m.setStack s).branch setup depth).putBack v).Keeps m := by
  have h : ((m.setStack s).branch setup depth).Keeps (m.setStack s) := keeps_branch depth
  have hm : ((m.setStack s).branch setup depth).Keeps m := ⟨h.globals, h.memories⟩
  exact hm.putBack v

theorem keeps_brIf (depth : Nat) : (m.executeBrIf setup depth).Keeps m := by
  unfold executeBrIf
  split
  · exact ⟨rfl, rfl⟩
  · simp only
    split
    · exact ⟨rfl, rfl⟩
    · exact keeps_branch_decided _ _ _

theorem keeps_brTable (depths : List UInt32) : (m.executeBrTable setup depths).Keeps m := by
  unfold executeBrTable
  split
  · exact keeps_branch_decided _ _ _
  · exact ⟨rfl, rfl⟩

/-! ### Calls -/

theorem keeps_enter (f : Nat) (type : FuncType) (locals : List ValueType) :
    (m.enter setup f type locals).Keeps m := by
  unfold enter
  split
  · exact ⟨rfl, rfl⟩
  · split <;> exact ⟨rfl, rfl⟩

/-- A call that asks the host nothing keeps them. -/
theorem keeps_call {f : Nat} (h : importCall? setup f m = none) : (m.call setup f).Keeps m := by
  unfold Machine.call
  split
  · rw [callImport_of_none h]
    exact ⟨rfl, rfl⟩
  · exact keeps_enter _ _ _
  · exact ⟨rfl, rfl⟩

theorem keeps_callIndirect {type : UInt32} (h : m.asks? setup (.callIndirect type) = none) :
    (m.callIndirect setup type.toNat).Keeps m := by
  unfold callIndirect
  split
  · exact ⟨rfl, rfl⟩
  · rename_i slot hslot
    split
    · exact ⟨rfl, rfl⟩
    · rename_i f hentry
      split
      · exact ⟨rfl, rfl⟩
      · rename_i expected hexpected
        split
        · rename_i htype
          have hcallee : m.callee? (.callIndirect type) = some f.toNat := by
            show m.top?.bind (fun slot => (m.element? slot.toNat).map UInt32.toNat) = _
            unfold top?
            rw [hslot, Option.bind_some, hentry]
            rfl
          have hnone : (m.callee? (.callIndirect type)).bind (fun f =>
              if setup.module.funcType? f = setup.module.types[type.toNat]? then
                importCall? setup f (m.setStack (m.stack.pop 1))
              else none) = none := h
          rw [hcallee, Option.bind_some, if_pos (by rw [htype, hexpected])] at hnone
          have hcall := keeps_call hnone
          have hm : ((m.setStack (m.stack.pop 1)).call setup f.toNat).Keeps m :=
            ⟨hcall.globals, hcall.memories⟩
          exact hm.putBack _
        · exact ⟨rfl, rfl⟩

/-! ### Instructions that write -/

theorem written_globalSet (index : UInt32) :
    Written setup watch m (.globalSet index) (m.executeGlobalSet setup watch index.toNat) := by
  unfold executeGlobalSet
  split
  · exact .kept ⟨rfl, rfl⟩
  · split
    · exact .assigned rfl rfl rfl
    · exact .kept ⟨rfl, rfl⟩

theorem written_store (op : StoreOp) (arg : MemArg) :
    Written setup watch m (.store op arg) (m.executeStore watch op arg) := by
  unfold executeStore
  split
  · exact .kept ⟨rfl, rfl⟩
  · split
    · simp only
      split
      · exact .stored rfl rfl rfl
      · exact .kept ⟨rfl, rfl⟩
    · exact .kept ⟨rfl, rfl⟩

theorem written_memoryGrow : Written setup watch m .memoryGrow m.executeMemoryGrow := by
  unfold executeMemoryGrow
  split
  · exact .kept ⟨rfl, rfl⟩
  · rename_i memory hmemory
    split
    · exact .kept ⟨rfl, rfl⟩
    · simp only
      split
      · exact .kept ⟨rfl, rfl⟩
      · rename_i grown hgrown
        exact .grown rfl hmemory hgrown rfl rfl

/-! ## All instructions -/

/-- **Every instruction does one of these things** to globals and memories. -/
theorem execute_written (setup : Setup) (watch : Breakpoints) (m : Machine) (i : Instr) :
    Written setup watch m i (m.execute setup watch i) := by
  cases hasks : m.asks? setup i with
  | some call => exact .answered hasks (execute_answered hasks)
  | none =>
    cases i with
    | unreachable | nop => exact .kept ⟨rfl, rfl⟩
    | loop _ _ => exact .kept keeps_loop
    | block r t => exact .kept (keeps_block r t)
    | ifThen r t arm => exact .kept (keeps_if r t arm)
    | elseThen t => cases t <;> exact .kept ⟨rfl, rfl⟩
    | blockEnd => exact .kept keeps_end
    | br depth => exact .kept (keeps_branch _)
    | brIf depth => exact .kept (keeps_brIf _)
    | brTable depths => exact .kept (keeps_brTable _)
    | ret => exact .kept keeps_return
    | call f => exact .kept (keeps_call hasks)
    | callIndirect type => exact .kept (keeps_callIndirect hasks)
    | drop => exact .kept keeps_drop
    | select => exact .kept keeps_select
    | localGet index => exact .kept (keeps_localGet _)
    | localSet index | localTee index => exact .kept (keeps_localSet _ _)
    | globalGet index => exact .kept (keeps_globalGet _)
    | globalSet index => exact written_globalSet index
    | load op arg => exact .kept (keeps_load op arg)
    | store op arg => exact written_store op arg
    | memorySize => exact .kept keeps_memorySize
    | memoryGrow => exact written_memoryGrow
    | const v => exact .kept (keeps_push v)
    | numeric op => exact .kept (keeps_withStack _)

/-- The same of the instruction at the position; where there is none, nothing is written. -/
theorem dispatch_written (setup : Setup) (watch : Breakpoints) (m : Machine) :
    (m.dispatch setup watch).Keeps m ∨
      ∃ i, fetch? setup m.ip = some i ∧ Written setup watch m i (m.dispatch setup watch) := by
  unfold dispatch
  split
  · exact Or.inl ⟨rfl, rfl⟩
  · split
    · exact Or.inl ⟨rfl, rfl⟩
    · rename_i i hi
      exact Or.inr ⟨i, hi, execute_written setup watch m i⟩

/-! ## Entering from outside -/

open Execution (enterEntry reset setEntryReturn)

/-- What entering a function from outside asks the host: nothing unless it is imported. -/
def entryCall? (setup : Setup) (f : Nat) (args : List Value) (m : Machine) : Option ImportCall :=
  match Execution.pushArgs { reset m with ip := ⟨f, 0⟩ } args with
  | .ok m => importCall? setup f m
  | .error _ => none

/-- The host is asked with the arguments on the stack. -/
theorem importCall?_of_entryCall? {f : Nat} {args : List Value} {call : ImportCall}
    (h : entryCall? setup f args m = some call) :
    ∃ pushed : Machine, pushed.globals = m.globals ∧ importCall? setup f pushed = some call := by
  unfold entryCall? at h
  obtain ⟨s, -, hpush | ⟨hpush, -⟩⟩ := pushArgs_cases { reset m with ip := ⟨f, 0⟩ } args
  · rw [hpush] at h
    exact absurd h (by simp)
  · rw [hpush] at h
    exact ⟨({ reset m with ip := ⟨f, 0⟩ } : Machine).setStack s, rfl, h⟩

/-- **Entering a function from outside** writes nothing, but for the answer of the host, and then
it has finished. -/
theorem enterEntry_answered (setup : Setup) (f : Nat) (args : List Value) (m : Machine) :
    (enterEntry setup f args m).Keeps m ∨
      ∃ call r m', entryCall? setup f args m = some call ∧ setup.bridge.fulfill call = .result r ∧
        enterEntry setup f args m = .finished m' ∧ m'.globals = r.globals ∧
        m'.memories = m.memories.modify 0 fun memory => memory.overwriteFront r.memory := by
  unfold enterEntry entryCall?
  obtain ⟨s, -, h | ⟨h, -⟩⟩ := pushArgs_cases { reset m with ip := ⟨f, 0⟩ } args
  · rw [h]
    exact Or.inl ⟨rfl, rfl⟩
  · rw [h]
    simp only
    generalize hpushed : ({ reset m with ip := ⟨f, 0⟩ } : Machine).setStack s = pushed
    have hglobals : pushed.globals = m.globals := hpushed ▸ rfl
    have hmemories : pushed.memories = m.memories := hpushed ▸ rfl
    cases hcall : importCall? setup f pushed with
    | none =>
      split
      · rw [callImport_of_none hcall]
        exact Or.inl ⟨hglobals, hmemories⟩
      · have hkeeps := keeps_call hcall
        generalize Machine.call setup f pushed = step at hkeeps
        have hglobals' := hkeeps.globals.trans hglobals
        have hmemories' := hkeeps.memories.trans hmemories
        cases step <;> exact Or.inl ⟨hglobals', hmemories'⟩
    | some call =>
      obtain ⟨t, _, himported, _⟩ := importCall?_eq_some hcall
      have hanswered := callImport_answered hcall
      simp only [himported]
      generalize pushed.callImport setup f = step at hanswered
      cases hanswered with
      | failed _ | threw _ | refused _ _ _ | full _ _ _ => exact Or.inl ⟨hglobals, hmemories⟩
      | @taken r _ m' hreply _ _ _ _ _ _ hback himage =>
        rw [hmemories] at himage
        exact Or.inr ⟨call, r, m', rfl, hreply, rfl, hback, himage⟩

/-- So it writes nothing unless the function is imported. -/
theorem enterEntry_written (setup : Setup) (f : Nat) (args : List Value) (m : Machine) :
    (enterEntry setup f args m).Keeps m ∨
      (∃ t name, setup.module.functions[f]? = some (.imported t name)) ∧
        ∃ m', enterEntry setup f args m = .finished m' := by
  refine (enterEntry_answered setup f args m).imp_right ?_
  rintro ⟨call, _, m', hasked, -, hfinished, -⟩
  obtain ⟨pushed, -, hcall⟩ := importCall?_of_entryCall? hasked
  obtain ⟨t, _, himported, _⟩ := importCall?_eq_some hcall
  exact ⟨⟨t, call.name, himported⟩, m', hfinished⟩

end Machine

end WasmDebugger
