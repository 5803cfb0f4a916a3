import WasmDebugger.Machine.Step
import WasmDebugger.Proofs.HostCalls
import WasmDebugger.Proofs.Nesting
import WasmDebugger.Proofs.OperandStack

/-!
# What an instruction can do

`Effect` lists, once for all instructions, what carrying one out can come to: frames, labels,
position and operands before and after. Later proofs take its cases apart and unfold no
instruction.

* `GoneOn`: an instruction has left everything but the stack and the memories as it was.
* `Flow`: the instructions that stay in their function and go through its blocks in order.
* `Leaves`: those that end it.
* `execute_effect`: every instruction has one of these effects, in any machine with a frame.
* `dispatch_cases`: what that leaves for the instruction at the position.
-/

namespace WasmDebugger

/-- Operands that only decide where to go. -/
def Instr.deciding : Instr → Nat
  | .brIf _ | .brTable _ | .callIndirect _ => 1
  | _ => 0

/-- The machine with which execution goes on. -/
def Step.onward? : Step → Option Machine
  | .next m | .watched _ m => some m
  | _ => none

/-- The machine that an instruction leaves, whatever it came to. -/
def Step.machine : Step → Machine
  | .next m | .watched _ m | .finished m | .fault _ m | .threw _ m => m

namespace Machine

/-- The integer on top of the stack. -/
def top? (m : Machine) : Option (BitVec 32) := (m.stack.peek? 0).bind (Value.asInt? .w32)

/-- How many labels out a branch goes, if it is taken. -/
def takenDepth? (m : Machine) : Instr → Option Nat
  | .br depth => some depth.toNat
  | .brIf depth => m.top?.bind fun condition => if condition = 0 then none else some depth.toNat
  | .brTable depths =>
    m.top?.bind fun selector => depths.getLast?.map fun otherwise =>
      (depths[selector.toNat]?.getD otherwise).toNat
  | _ => none

/-- The function that a call is about to enter. -/
def callee? (m : Machine) : Instr → Option Nat
  | .call f => some f.toNat
  | .callIndirect _ => m.top?.bind fun slot => (m.element? slot.toNat).map (·.toNat)
  | _ => none

/-- The stack without the operands that decide where to go. -/
def decided (m : Machine) (i : Instr) : OperandStack := m.stack.pop i.deciding

/-- **The instruction is done and nothing else has happened**: execution goes on behind it, with
these values on the stack and these memories. -/
structure GoneOn (m : Machine) (values : List Value) (memories : Array LinearMemory)
    (m' : Machine) : Prop where
  position : m'.ip = ⟨m.ip.function, m.ip.instr + 1⟩
  values : m'.stack.values = values
  floor : m'.stack.floor = m.stack.floor
  limit : m'.stack.limit = m.stack.limit
  frames : m'.frames = m.frames
  globals : m'.globals = m.globals
  memories : m'.memories = memories
  tables : m'.tables = m.tables

/-- Operands are replaced by a result. -/
theorem goneOn_replace {m : Machine} {vs rest : List Value} (h : m.stack.Offers vs rest)
    (v : Value) :
    m.GoneOn (v :: rest) m.memories (m.setStack (m.stack.replace vs.length v)).advance where
  position := rfl
  values := congrArg (v :: ·) h.drop
  floor := rfl
  limit := rfl
  frames := rfl
  globals := rfl
  memories := rfl
  tables := rfl

/-! ## The effects -/

/-- Where an instruction goes within its function, and the labels that are then there. -/
inductive Flow (m : Machine) (labels : List Label) : Instr → Nat → List Label → Prop where
  | along {i} (hb : i.bracket = .plain) (hd : m.takenDepth? i = none) :
      Flow m labels i (m.ip.instr + 1) labels
  | block {r e} :
      Flow m labels (.block r (some e)) (m.ip.instr + 1)
        (⟨e, resultArity r, m.stack.size, false⟩ :: labels)
  | loop {r t} :
      Flow m labels (.loop r t) (m.ip.instr + 1) (⟨m.ip.instr, 0, m.stack.size, true⟩ :: labels)
  | ifThen {r e arm p} (ha : 0 < m.stack.available)
      (hp : p = m.ip.instr + 1 ∨ (∃ a, arm = some a ∧ p = a + 1) ∨ (arm = none ∧ p = e)) :
      Flow m labels (.ifThen r (some e) arm) p
        (⟨e, resultArity r, m.stack.size - 1, false⟩ :: labels)
  | pastArm {e} : Flow m labels (.elseThen (some e)) e labels
  | close {label rest} (hl : labels = label :: rest) :
      Flow m labels .blockEnd (m.ip.instr + 1) rest

/-- The instruction ends the function. -/
inductive Leaves (m : Machine) (labels : List Label) : Instr → Prop where
  | ret : Leaves m labels .ret
  | last (hl : labels = []) : Leaves m labels .blockEnd
  | branch {i} (hd : m.takenDepth? i = some labels.length) : Leaves m labels i

/-- The stack that a function leaves behind: its results on what was under its operands. -/
def handedBack (m : Machine) (frame : Frame) (i : Instr) (results : List Value) : OperandStack :=
  ((m.decided i).truncate frame.base).restoreAll results

/-- A function's frame as it is entered. -/
def newFrame (m : Machine) (f : Nat) (args : List Value) (locals : List ValueType) (base : Nat) :
    Frame where
  function := f
  locals := (args ++ locals.map Value.zero).toArray
  returnTo := ⟨m.ip.function, m.ip.instr + 1⟩
  base := base
  labels := []

/-- **What an instruction comes to** in a machine with `frame` on top of `callers`. -/
inductive Effect (setup : Setup) (m : Machine) (frame : Frame) (callers : List Frame) (i : Instr) :
    Step → Prop where
  | fault (f : Fault) : Effect setup m frame callers i (.fault f m)
  /-- Only a call asks the host. -/
  | threw (message : String) {f : Nat} {s : OperandStack} (hc : m.callee? i = some f)
      (hs : m.stack.Shift s) : Effect setup m frame callers i (.threw message (m.setStack s))
  /-- The function goes on; only its own operands and locals have changed on the stacks. -/
  | inside {step : Step} {m' : Machine} {locals : Array Value} {labels : List Label} {p : Nat}
      (hstep : step.onward? = some m') (hflow : Flow m frame.labels i p labels)
      (hframes : m'.frames = { frame with locals := locals, labels := labels } :: callers)
      (hlocals : locals.map Value.type = frame.locals.map Value.type)
      (hip : m'.ip = ⟨m.ip.function, p⟩) (hstack : m.stack.Shift m'.stack)
      (hglobals : m'.globals.map Value.type = m.globals.map Value.type)
      (htables : m'.tables = m.tables) : Effect setup m frame callers i step
  /-- A branch to a label takes the label's operands with it. -/
  | branched {depth : Nat} {label : Label} {carried : List Value}
      (hd : m.takenDepth? i = some depth) (hl : frame.labels[depth]? = some label)
      (ha : i.deciding ≤ m.stack.available)
      (hs : label.height + carried.length ≤ (m.decided i).size) :
      Effect setup m frame callers i (.next
        { m with
          ip := ⟨m.ip.function,
            if label.isLoop then label.continuation else label.continuation + 1⟩
          stack := ((m.decided i).truncate label.height).restoreAll carried
          frames := { frame with labels := frame.labels.drop (depth + 1) } :: callers })
  | entered {f : Nat} {t : UInt32} {locals : List ValueType} {code : Array Instr} {type : FuncType}
      {args : List Value} (hc : m.callee? i = some f) (hb : i.bracket = .plain)
      (hf : setup.module.functions[f]? = some (.defined t locals code))
      (ht : setup.module.funcType? f = some type) (hd : m.depth < setup.limits.maxCallDepth)
      (ha : i.deciding ≤ m.stack.available) (hargs : (m.decided i).typed? type.params = some args) :
      Effect setup m frame callers i (.next
        { m with
          ip := ⟨f, 0⟩
          stack := ((m.decided i).pop args.length).setFloor ((m.decided i).size - args.length)
          frames := m.newFrame f args locals ((m.decided i).size - args.length) :: m.frames })
  | returned {caller : Frame} {outer : List Frame} {type : FuncType} {results : List Value}
      (hi : Leaves m frame.labels i) (hc : callers = caller :: outer)
      (ht : setup.module.funcType? frame.function = some type)
      (ha : i.deciding ≤ m.stack.available)
      (hr : (m.decided i).typed? type.results = some results) :
      Effect setup m frame callers i (.next
        { m with
          ip := frame.returnTo
          stack := (m.handedBack frame i results).setFloor caller.base
          frames := callers })
  | finished {type : FuncType} {results : List Value} (hi : Leaves m frame.labels i)
      (hc : callers = []) (ht : setup.module.funcType? frame.function = some type)
      (ha : i.deciding ≤ m.stack.available)
      (hr : (m.decided i).typed? type.results = some results) :
      Effect setup m frame callers i (.finished
        { m with stack := (m.handedBack frame i results).setFloor 0, frames := [] })

variable {setup : Setup} {watch : Breakpoints} {m : Machine} {frame : Frame}
  {callers : List Frame} {i : Instr}

theorem machine_of_onward? {step : Step} (h : step.onward? = some m) : step.machine = m := by
  cases step <;> cases h <;> rfl

/-- A call does not branch. -/
theorem takenDepth?_of_callee? {f : Nat} (h : m.callee? i = some f) : m.takenDepth? i = none := by
  cases i <;> first | rfl | exact absurd h (by simp [callee?])

/-! ## Instructions that work on operands -/

@[simp] theorem onward?_watchedAt (m : Machine) (hit : Option UInt32) :
    (m.watchedAt hit).onward? = some m := by
  cases hit <;> rfl

/-- The operand on top is there to be popped. -/
theorem available_of_peek? {s : OperandStack} {n : Nat} {v : Value} (h : s.peek? n = some v) :
    n < s.available := (OperandStack.peek?_eq_some.mp h).1

theorem available_of_top? {b : BitVec 32} (h : m.top? = some b) : 0 < m.stack.available := by
  obtain ⟨v, hv, -⟩ := Option.bind_eq_some_iff.mp h
  exact available_of_peek? hv

theorem effect_of_shift {s : OperandStack} {step : Step} (hf : m.frames = frame :: callers)
    (hb : i.bracket = .plain) (hd : m.takenDepth? i = none) (hs : m.stack.Shift s)
    (hstep : step.onward? = some (m.setStack s).advance) :
    Effect setup m frame callers i step :=
  .inside hstep (.along hb hd) hf rfl rfl hs rfl rfl

theorem effect_push {v : Value} (hf : m.frames = frame :: callers) (hb : i.bracket = .plain)
    (hd : m.takenDepth? i = none) : Effect setup m frame callers i (m.executePush v) := by
  unfold executePush
  split
  · exact .fault _
  · rename_i s hs
    exact effect_of_shift hf hb hd (OperandStack.shift_push? hs) rfl

end Machine

/-! ### Numeric instructions -/

namespace OperandStack

variable {α : Type} {s t : OperandStack}

theorem shift_unary {read : Value → Option α} {f : α → Except ArithmeticError Value}
    (h : s.unary read f = .ok t) : Shift s t := by
  unfold unary at h
  split at h
  · exact absurd h (by simp)
  · rename_i a ha
    obtain ⟨v, hv, -⟩ := Option.bind_eq_some_iff.mp ha
    split at h
    · cases h
      exact shift_replace _ Nat.one_pos (peek?_eq_some.mp hv).1
    · exact absurd h (by simp)

theorem shift_binary {read : Value → Option α} {f : α → α → Except ArithmeticError Value}
    (h : s.binary read f = .ok t) : Shift s t := by
  unfold binary at h
  split at h
  · rename_i ha _
    obtain ⟨v, hv, -⟩ := Option.bind_eq_some_iff.mp ha
    split at h
    · cases h
      exact shift_replace _ Nat.two_pos (peek?_eq_some.mp hv).1
    · exact absurd h (by simp)
  · exact absurd h (by simp)

theorem shift_run {op : NumericOp} (h : op.run s = .ok t) : Shift s t := by
  cases op with
  | intCompare _ _ | floatCompare _ _ | intBinary _ _ | floatBinary _ _ =>
    simp only [NumericOp.run] at h
    exact shift_binary h
  | _ =>
    simp only [NumericOp.run] at h
    exact shift_unary h

end OperandStack

namespace Machine

variable {setup : Setup} {watch : Breakpoints} {m : Machine} {frame : Frame}
  {callers : List Frame} {i : Instr}

theorem effect_numeric {op : NumericOp} (hf : m.frames = frame :: callers) :
    Effect setup m frame callers (.numeric op) (m.withStack (op.run m.stack)) := by
  cases h : op.run m.stack with
  | error f => exact .fault f
  | ok s => exact effect_of_shift hf rfl rfl (OperandStack.shift_run h) rfl

/-! ### Operands and variables -/

theorem effect_drop (hf : m.frames = frame :: callers) :
    Effect setup m frame callers .drop m.executeDrop := by
  unfold executeDrop
  split
  · exact .fault _
  · rename_i ha
    exact effect_of_shift hf rfl rfl (OperandStack.shift_pop (by omega)) rfl

theorem effect_select (hf : m.frames = frame :: callers) :
    Effect setup m frame callers .select m.executeSelect := by
  unfold executeSelect
  split
  · rename_i first second condition h2 _ _
    split
    · exact effect_of_shift hf rfl rfl
        (OperandStack.shift_replace _ (by omega) (available_of_peek? h2)) rfl
    · exact .fault _
  · exact .fault _

theorem effect_localGet {index : UInt32} (hf : m.frames = frame :: callers) :
    Effect setup m frame callers (.localGet index) (m.executeLocalGet index.toNat) := by
  unfold executeLocalGet
  split
  · exact .fault _
  · exact effect_push hf rfl rfl

/-- Assigning a value that fits keeps the types. -/
theorem types_setIfInBounds {vs : Array Value} {index : Nat} {v : Value}
    (h : fits v vs[index]? = true) :
    (vs.setIfInBounds index v).map Value.type = vs.map Value.type := by
  apply Array.ext_getElem?
  intro k
  rw [Array.getElem?_map, Array.getElem?_map, Array.getElem?_setIfInBounds]
  split
  · rename_i hk
    subst hk
    cases hv : vs[index]? with
    | none => rw [hv] at h; exact absurd h (by simp [fits])
    | some old =>
      rw [hv] at h
      have hlt := (Array.getElem?_eq_some_iff.mp hv).1
      simp only [fits, decide_eq_true_eq] at h
      simp [hlt, h]
  · rfl

theorem effect_localSet {index : Nat} {keep : Bool} (hf : m.frames = frame :: callers)
    (hb : i.bracket = .plain) (hd : m.takenDepth? i = none) :
    Effect setup m frame callers i (m.executeLocalSet index keep) := by
  unfold executeLocalSet
  rw [hf]
  split
  · rename_i v _ _ hv he
    cases he
    split
    · rename_i hfit
      refine .inside rfl (.along hb hd) rfl (types_setIfInBounds hfit) rfl ?_ rfl rfl
      cases keep
      · exact OperandStack.shift_pop (available_of_peek? hv)
      · exact .refl _
    · exact .fault _
  · exact .fault _

theorem effect_globalGet {index : UInt32} (hf : m.frames = frame :: callers) :
    Effect setup m frame callers (.globalGet index) (m.executeGlobalGet watch index.toNat) := by
  unfold executeGlobalGet
  split
  · exact .fault _
  · split
    · exact .fault _
    · rename_i s hs
      exact effect_of_shift hf rfl rfl (OperandStack.shift_push? hs) (onward?_watchedAt _ _)

theorem effect_globalSet {index : UInt32} (hf : m.frames = frame :: callers) :
    Effect setup m frame callers (.globalSet index)
      (m.executeGlobalSet setup watch index.toNat) := by
  unfold executeGlobalSet
  split
  · exact .fault _
  · rename_i v hv
    split
    · rename_i h
      rw [Bool.and_eq_true] at h
      exact .inside (onward?_watchedAt _ _) (.along rfl rfl) hf rfl rfl
        (OperandStack.shift_pop (available_of_peek? hv)) (types_setIfInBounds h.1) rfl
    · exact .fault _

/-! ### Memory -/

theorem effect_load {op : LoadOp} {arg : MemArg} (hf : m.frames = frame :: callers) :
    Effect setup m frame callers (.load op arg) (m.executeLoad watch op arg) := by
  unfold executeLoad
  split
  · exact .fault _
  · split
    · exact .fault _
    · rename_i base hbase
      simp only
      split
      · exact .fault _
      · exact effect_of_shift hf rfl rfl
          (OperandStack.shift_replace _ Nat.one_pos (available_of_top? hbase))
          (onward?_watchedAt _ _)

theorem effect_store {op : StoreOp} {arg : MemArg} (hf : m.frames = frame :: callers) :
    Effect setup m frame callers (.store op arg) (m.executeStore watch op arg) := by
  unfold executeStore
  split
  · exact .fault _
  · split
    · rename_i n base _ hbase
      obtain ⟨v, hv, -⟩ := Option.bind_eq_some_iff.mp hbase
      simp only
      split
      · exact .inside (onward?_watchedAt _ _) (.along rfl rfl) hf rfl rfl
          (OperandStack.shift_pop (available_of_peek? hv)) rfl rfl
      · exact .fault _
    · exact .fault _

theorem effect_memorySize (hf : m.frames = frame :: callers) :
    Effect setup m frame callers .memorySize m.executeMemorySize := by
  unfold executeMemorySize
  split
  · exact .fault _
  · exact effect_push hf rfl rfl

theorem effect_memoryGrow (hf : m.frames = frame :: callers) :
    Effect setup m frame callers .memoryGrow m.executeMemoryGrow := by
  unfold executeMemoryGrow
  split
  · exact .fault _
  · split
    · exact .fault _
    · rename_i delta hdelta
      have hs : ∀ v, m.stack.Shift (m.stack.replace 1 v) := fun v =>
        OperandStack.shift_replace v Nat.one_pos (available_of_top? hdelta)
      simp only
      split
      · exact effect_of_shift hf rfl rfl (hs _) rfl
      · exact .inside rfl (.along rfl rfl) hf rfl rfl (hs _) rfl rfl

/-! ## Blocks -/

theorem pushLabel_of_frames (hf : m.frames = frame :: callers) (label : Label) :
    m.pushLabel label =
      { m with frames := { frame with labels := label :: frame.labels } :: callers } := by
  unfold pushLabel
  rw [hf]

theorem effect_block {r : Option ValueType} {t : Option Nat} (hf : m.frames = frame :: callers) :
    Effect setup m frame callers (.block r t) (m.executeBlock r t) := by
  unfold executeBlock
  split
  · exact .fault _
  · rw [pushLabel_of_frames hf]
    exact .inside rfl .block rfl rfl rfl (.refl _) rfl rfl

theorem effect_loop {r : Option ValueType} {t : Option Nat} (hf : m.frames = frame :: callers) :
    Effect setup m frame callers (.loop r t) m.executeLoop := by
  unfold executeLoop
  rw [pushLabel_of_frames hf]
  exact .inside rfl .loop rfl rfl rfl (.refl _) rfl rfl

theorem effect_if {r : Option ValueType} {t arm : Option Nat} (hf : m.frames = frame :: callers) :
    Effect setup m frame callers (.ifThen r t arm) (m.executeIf r t arm) := by
  unfold executeIf
  split
  · rename_i condition e hcond
    have ha := available_of_top? hcond
    have hs : m.stack.Shift (m.stack.pop 1) := OperandStack.shift_pop ha
    have hf' : (m.setStack (m.stack.pop 1)).frames = frame :: callers := hf
    simp only [pushLabel_of_frames hf']
    split
    · split
      · exact .inside rfl (.ifThen ha (Or.inr (Or.inl ⟨_, rfl, rfl⟩))) rfl rfl rfl hs rfl rfl
      · exact .inside rfl (.ifThen ha (Or.inr (Or.inr ⟨rfl, rfl⟩))) rfl rfl rfl hs rfl rfl
    · exact .inside rfl (.ifThen ha (Or.inl rfl)) rfl rfl rfl hs rfl rfl
  · exact .fault _

/-! ## Transfers of control

A branch, a return or a call runs after the operand that decides it has been taken off, and a
fault leaves that machine, whose operand is then put back. -/

/-- What a transfer comes to while the deciding operand is off the stack. -/
def Attempt (setup : Setup) (m : Machine) (frame : Frame) (callers : List Frame) (i : Instr)
    (step : Step) : Prop :=
  (∃ f, step = .fault f (m.setStack (m.decided i))) ∨
    (Effect setup m frame callers i step ∧ ∀ v, step.putBack v = step)

/-- Nothing was taken off. -/
theorem Attempt.effect {step : Step} (h : Attempt setup m frame callers i step)
    (hi : i.deciding = 0) : Effect setup m frame callers i step := by
  rcases h with ⟨f, rfl⟩ | ⟨h, -⟩
  · unfold decided
    rw [hi]
    exact .fault f
  · exact h

theorem Attempt.putBack {step : Step} (h : Attempt setup m frame callers i step)
    (hi : i.deciding = 1) {b : BitVec 32} (ht : m.top? = some b) :
    Effect setup m frame callers i (step.putBack (.i32 b)) := by
  rcases h with ⟨f, rfl⟩ | ⟨h, hp⟩
  · obtain ⟨v, hv, hb⟩ := Option.bind_eq_some_iff.mp ht
    rw [Value.asInt?_eq_some_iff] at hb
    have hr : (m.decided i).restore (.i32 b) = m.stack := by
      unfold decided
      rw [hi]
      exact OperandStack.restore_pop (by rw [hv, hb]; rfl)
    show Effect setup m frame callers i (.fault f (m.setStack ((m.decided i).restore (.i32 b))))
    rw [hr]
    exact .fault f
  · rw [hp]
    exact h

theorem attempt_return (hf : m.frames = frame :: callers) (hi : Leaves m frame.labels i)
    (ha : i.deciding ≤ m.stack.available) :
    Attempt setup m frame callers i
      ((m.setStack (m.decided i)).returnFromFunction setup) := by
  have hf' : (m.setStack (m.decided i)).frames = frame :: callers := hf
  unfold returnFromFunction
  rw [hf']
  simp only
  split
  · exact Or.inl ⟨_, rfl⟩
  · rename_i results hr
    obtain ⟨type, ht, hr⟩ := Option.bind_eq_some_iff.mp hr
    split
    · exact Or.inr ⟨.finished hi rfl ht ha hr, fun _ => rfl⟩
    · exact Or.inr ⟨.returned hi rfl ht ha hr, fun _ => rfl⟩

theorem attempt_branch {depth : Nat} (hf : m.frames = frame :: callers)
    (hd : m.takenDepth? i = some depth) (ha : i.deciding ≤ m.stack.available) :
    Attempt setup m frame callers i ((m.setStack (m.decided i)).branch setup depth) := by
  have hf' : (m.setStack (m.decided i)).frames = frame :: callers := hf
  unfold branch
  rw [hf']
  simp only
  split
  · rename_i he
    exact attempt_return hf (.branch (by rw [hd, he])) ha
  · split
    · exact Or.inl ⟨_, rfl⟩
    · rename_i label hl
      split
      · exact Or.inl ⟨_, rfl⟩
      · rename_i hs
        refine Or.inr ⟨.branched hd hl ha ?_, fun _ => rfl⟩
        rw [List.length_reverse, List.length_take]
        exact Nat.le_trans (Nat.add_le_add_left (Nat.min_le_left _ _) _) (Nat.le_of_not_lt hs)

/-! ### Calls -/

/-- Globals that are not refused have the types of those that were handed out. -/
theorem types_of_refusal? {type : FuncType} {globals : Array Value} {r : ImportResult}
    (h : refusal? type globals r = none) :
    r.globals.map Value.type = globals.map Value.type := by
  have hg : refusal?.globalRefusal? globals r = none := by
    unfold refusal? at h
    split at h
    · exact absurd h (by simp)
    · split at h
      · exact absurd h (by simp)
      · exact absurd h (by simp)
      · exact h
      · split at h
        · exact h
        · exact absurd h (by simp)
  unfold refusal?.globalRefusal? at hg
  split at hg
  · exact absurd hg (by simp)
  · rename_i hsize
    have hsize : r.globals.size = globals.size := by simpa using hsize
    rw [Option.map_eq_none_iff, List.findIdx?_eq_none_iff] at hg
    apply Array.ext_getElem?
    intro k
    rw [Array.getElem?_map, Array.getElem?_map]
    by_cases hk : k < r.globals.size
    · have hk' : k < globals.size := hsize ▸ hk
      have := hg (r.globals[k].type, globals[k].type) (by
        rw [List.mem_iff_getElem]
        exact ⟨k, by simp; omega, by simp⟩)
      simpa [hk, hk'] using this
    · have hk' : ¬ k < globals.size := hsize ▸ hk
      simp [hk, hk']

/-- An import changes operands, globals and memory; a fault leaves everything as it was. -/
theorem callImport_cases (setup : Setup) (f : Nat) (m : Machine) :
    (∃ fault, m.callImport setup f = .fault fault m) ∨
      (∃ message, m.callImport setup f = .threw message m) ∨
      ∃ m', m.callImport setup f = .next m' ∧ m'.ip = m.ip ∧ m'.frames = m.frames ∧
        m'.tables = m.tables ∧ m.stack.Shift m'.stack ∧
        m'.globals.map Value.type = m.globals.map Value.type := by
  cases h : importCall? setup f m with
  | none => exact Or.inl ⟨_, callImport_of_none h⟩
  | some call =>
    have ha := callImport_answered h
    obtain ⟨-, -, -, -, -, hcall⟩ := importCall?_eq_some h
    have hshown : call.globals = m.globals := by rw [hcall]
    generalize m.callImport setup f = step at ha
    cases ha with
    | failed _ | refused _ _ _ | full _ _ _ => exact Or.inl ⟨_, rfl⟩
    | threw _ => exact Or.inr (Or.inl ⟨_, rfl⟩)
    | taken _ _ hr hip hframes htables hstack hglobals _ =>
      refine Or.inr (Or.inr ⟨_, rfl, hip, hframes, htables, hstack, ?_⟩)
      rw [hglobals, types_of_refusal? hr, hshown]

/-- Entering a function is refused or pushes its frame. -/
theorem enter_cases (setup : Setup) (f : Nat) (type : FuncType) (locals : List ValueType)
    (m : Machine) :
    (∃ fault, m.enter setup f type locals = .fault fault m) ∨
      (m.depth < setup.limits.maxCallDepth ∧ ∃ args, m.stack.typed? type.params = some args ∧
        m.enter setup f type locals = .next
          { m with
            ip := ⟨f, 0⟩
            stack := (m.stack.pop args.length).setFloor (m.stack.size - args.length)
            frames := m.newFrame f args locals (m.stack.size - args.length) :: m.frames }) := by
  unfold enter
  split
  · exact Or.inl ⟨_, rfl⟩
  · rename_i hd
    split
    · exact Or.inl ⟨_, rfl⟩
    · rename_i args hargs
      refine Or.inr ⟨Nat.lt_of_not_le hd, args, hargs, ?_⟩
      rw [OperandStack.length_of_typed? hargs]
      rfl

/-- A call is refused, asks the host, or enters a function. -/
theorem call_cases (setup : Setup) (f : Nat) (m : Machine) :
    (∃ fault, m.call setup f = .fault fault m) ∨
      (∃ message, m.call setup f = .threw message m) ∨
      (∃ m' : Machine, m.call setup f = .next m'.advance ∧
        (∃ t name, setup.module.functions[f]? = some (.imported t name)) ∧ m'.ip = m.ip ∧
        m'.frames = m.frames ∧ m'.tables = m.tables ∧ m.stack.Shift m'.stack ∧
        m'.globals.map Value.type = m.globals.map Value.type) ∨
      ∃ t locals code type args, setup.module.functions[f]? = some (.defined t locals code) ∧
        setup.module.funcType? f = some type ∧ m.depth < setup.limits.maxCallDepth ∧
        m.stack.typed? type.params = some args ∧ m.call setup f = .next
          { m with
            ip := ⟨f, 0⟩
            stack := (m.stack.pop args.length).setFloor (m.stack.size - args.length)
            frames := m.newFrame f args locals (m.stack.size - args.length) :: m.frames } := by
  unfold call
  split
  · rename_i t name _ hfun _
    rcases callImport_cases setup f m with ⟨fault, h⟩ | ⟨message, h⟩ | ⟨m', h, hkept⟩
    · rw [h]
      exact Or.inl ⟨fault, rfl⟩
    · rw [h]
      exact Or.inr (Or.inl ⟨message, rfl⟩)
    · rw [h]
      exact Or.inr (Or.inr (Or.inl ⟨m', rfl, ⟨t, name, hfun⟩, hkept⟩))
  · rename_i t locals code type hfun ht
    rcases enter_cases setup f type locals m with h | ⟨hdepth, args, hargs, h⟩
    · exact Or.inl h
    · exact Or.inr (Or.inr (Or.inr ⟨t, locals, code, type, args, hfun, ht, hdepth, hargs, h⟩))
  · exact Or.inl ⟨_, rfl⟩

theorem attempt_call {f : Nat} (hf : m.frames = frame :: callers) (hc : m.callee? i = some f)
    (hb : i.bracket = .plain) (hd : m.takenDepth? i = none)
    (ha : i.deciding ≤ m.stack.available) :
    Attempt setup m frame callers i ((m.setStack (m.decided i)).call setup f) := by
  have hs : m.stack.Shift (m.decided i) := OperandStack.shift_pop ha
  rcases call_cases setup f (m.setStack (m.decided i)) with
    ⟨fault, h⟩ | ⟨message, h⟩ | ⟨m', h, -, hip, hframes, htables, hstack, hglobals⟩ |
    ⟨t, locals, code, type, args, hfun, ht, hdepth, hargs, h⟩
  · rw [h]
    exact Or.inl ⟨fault, rfl⟩
  · rw [h]
    exact Or.inr ⟨.threw message hc hs, fun _ => rfl⟩
  · rw [h]
    refine Or.inr ⟨.inside rfl (.along hb hd) (hframes.trans hf) rfl ?_ (hs.trans hstack)
      hglobals htables, fun _ => rfl⟩
    show (⟨m'.ip.function, m'.ip.instr + 1⟩ : Position) = ⟨m.ip.function, m.ip.instr + 1⟩
    rw [hip]
    rfl
  · rw [h]
    exact Or.inr ⟨.entered hc hb hfun ht hdepth ha hargs, fun _ => rfl⟩

theorem effect_callIndirect {type : UInt32} (hf : m.frames = frame :: callers) :
    Effect setup m frame callers (.callIndirect type) (m.callIndirect setup type.toNat) := by
  unfold callIndirect
  split
  · exact .fault _
  · rename_i slot hslot
    split
    · exact .fault _
    · rename_i f hel
      have hc : m.callee? (.callIndirect type) = some f.toNat := by
        show m.top?.bind (fun slot => (m.element? slot.toNat).map UInt32.toNat) = _
        unfold top?
        rw [hslot, Option.bind_some, hel]
        rfl
      split
      · exact .fault _
      · split
        · exact (attempt_call hf hc rfl rfl (available_of_top? hslot)).putBack rfl hslot
        · exact .fault _

/-! ### Branches -/

theorem effect_brIf {depth : UInt32} (hf : m.frames = frame :: callers) :
    Effect setup m frame callers (.brIf depth) (m.executeBrIf setup depth.toNat) := by
  unfold executeBrIf
  split
  · exact .fault _
  · rename_i condition hcond
    have ha := available_of_top? hcond
    have hd : m.takenDepth? (.brIf depth) = if condition = 0 then none else some depth.toNat := by
      show m.top?.bind (fun condition => if condition = 0 then none else some depth.toNat) = _
      unfold top?
      rw [hcond]
      rfl
    simp only
    split
    · rename_i h0
      rw [if_pos h0] at hd
      exact effect_of_shift hf rfl hd (OperandStack.shift_pop ha) rfl
    · rename_i h0
      rw [if_neg h0] at hd
      exact (attempt_branch hf hd ha).putBack rfl hcond

theorem effect_brTable {depths : List UInt32} (hf : m.frames = frame :: callers) :
    Effect setup m frame callers (.brTable depths) (m.executeBrTable setup depths) := by
  unfold executeBrTable
  split
  · rename_i selector otherwise hsel hlast
    have hd : m.takenDepth? (.brTable depths) =
        some (depths[selector.toNat]?.getD otherwise).toNat := by
      show m.top?.bind (fun selector => depths.getLast?.map fun otherwise =>
        (depths[selector.toNat]?.getD otherwise).toNat) = _
      unfold top?
      rw [hsel, Option.bind_some, hlast]
      rfl
    exact (attempt_branch hf hd (available_of_top? hsel)).putBack rfl hsel
  · exact .fault _

theorem effect_end (hf : m.frames = frame :: callers) :
    Effect setup m frame callers .blockEnd (m.executeEnd setup) := by
  unfold executeEnd
  rw [hf]
  simp only
  split
  · rename_i hl
    exact (attempt_return hf (.last hl) (Nat.zero_le _)).effect rfl
  · rename_i label labels hl
    exact .inside rfl (.close hl) rfl rfl rfl (.refl _) rfl rfl

/-! ## All instructions -/

/-- **Every instruction has one of the effects**, whatever the module and the host. -/
theorem execute_effect (hf : m.frames = frame :: callers) :
    Effect setup m frame callers i (m.execute setup watch i) := by
  cases i with
  | unreachable => exact .fault _
  | nop => exact effect_of_shift hf rfl rfl (.refl _) rfl
  | block r t => exact effect_block hf
  | loop r t => exact effect_loop hf
  | ifThen r t arm => exact effect_if hf
  | elseThen t =>
    cases t with
    | none => exact .fault _
    | some e => exact .inside rfl .pastArm hf rfl rfl (.refl _) rfl rfl
  | blockEnd => exact effect_end hf
  | br depth => exact (attempt_branch hf rfl (Nat.zero_le _)).effect rfl
  | brIf depth => exact effect_brIf hf
  | brTable depths => exact effect_brTable hf
  | ret => exact (attempt_return hf .ret (Nat.zero_le _)).effect rfl
  | call f => exact (attempt_call hf rfl rfl rfl (Nat.zero_le _)).effect rfl
  | callIndirect type => exact effect_callIndirect hf
  | drop => exact effect_drop hf
  | select => exact effect_select hf
  | localGet index => exact effect_localGet hf
  | localSet index => exact effect_localSet hf rfl rfl
  | localTee index => exact effect_localSet hf rfl rfl
  | globalGet index => exact effect_globalGet hf
  | globalSet index => exact effect_globalSet hf
  | load op arg => exact effect_load hf
  | store op arg => exact effect_store hf
  | memorySize => exact effect_memorySize hf
  | memoryGrow => exact effect_memoryGrow hf
  | const v => exact effect_push hf rfl rfl
  | numeric op => exact effect_numeric hf

/-- A fault leaves the machine as it was. -/
theorem Effect.eq_of_fault {f : Fault} {m' : Machine}
    (h : Effect setup m frame callers i (.fault f m')) : m' = m := by
  cases h with
  | fault _ => rfl
  | inside hstep _ _ _ _ _ _ _ => exact absurd hstep (by simp [Step.onward?])

/-- With a frame, the instruction at the position is carried out. -/
theorem dispatch_eq_execute {watch : Breakpoints} (hf : m.frames ≠ [])
    (hi : fetch? setup m.ip = some i) : m.dispatch setup watch = m.execute setup watch i := by
  unfold dispatch
  split
  · rename_i hnil
    exact absurd hnil hf
  · simp only [hi]

/-- What dispatching comes to: nothing is left to do, the position names no instruction, or its
instruction has an effect. -/
theorem dispatch_cases (setup : Setup) (watch : Breakpoints) (m : Machine) :
    (m.frames = [] ∧ m.dispatch setup watch = .finished m) ∨
      (fetch? setup m.ip = none ∧ m.dispatch setup watch = .fault .typeMismatch m) ∨
      ∃ frame callers i, m.frames = frame :: callers ∧ fetch? setup m.ip = some i ∧
        Effect setup m frame callers i (m.dispatch setup watch) := by
  unfold dispatch
  split
  · rename_i hf
    exact Or.inl ⟨hf, rfl⟩
  · rename_i frame callers hf
    split
    · rename_i hi
      exact Or.inr (Or.inl ⟨hi, rfl⟩)
    · rename_i i hi
      exact Or.inr (Or.inr ⟨frame, callers, i, hf, hi, execute_effect hf⟩)

theorem eq_of_dispatch_fault {f : Fault} {m' : Machine}
    (h : m.dispatch setup watch = .fault f m') : m' = m := by
  rcases dispatch_cases setup watch m with ⟨-, h'⟩ | ⟨-, h'⟩ | ⟨frame, callers, i, -, -, he⟩
  · rw [h'] at h
    exact absurd h (by simp)
  · rw [h'] at h
    cases h
    rfl
  · rw [h] at he
    exact he.eq_of_fault

end Machine

end WasmDebugger
