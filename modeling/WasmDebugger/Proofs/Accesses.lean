import WasmDebugger.Proofs.Stopping

/-!
# Watched accesses

The registry takes no part in what an instruction does. It is asked once the instruction is done,
about the one global or the one range of memory that the instruction has accessed.

* `Hits`: what the instruction is about to access falls under a watchpoint.
* `watchHit?`: the lookup, as a function; `watchHit?_eq_some_iff` ties the two together.
* `dispatch_reported`: under every registry an instruction does what it does under the empty one,
  and then it is reported what the lookup finds.
* **`watchpoint_reached_iff`**: a watchpoint is reached exactly by the accesses that complete and
  fall under it, and the machine is then behind the instruction, as if nobody had watched.
-/

namespace WasmDebugger

/-- The instructions that look a watchpoint up. -/
def Instr.accesses : Instr → Bool
  | .globalGet _ | .globalSet _ | .load _ _ | .store _ _ => true
  | _ => false

/-- The step, reported if a lookup has found something. -/
def Step.reported (hit : Option UInt32) : Step → Step
  | .next m => m.watchedAt hit
  | step => step

@[simp] theorem Step.reported_none (step : Step) : step.reported none = step := by
  cases step <;> rfl

@[simp] theorem Step.reported_unwatched_watchedAt (m : Machine) (hit : Option UInt32) :
    (m.watchedAt hit).unwatched.reported hit = m.watchedAt hit := by
  rw [Machine.unwatched_watchedAt]
  rfl

theorem Step.eq_next_of_unwatched {step : Step} {m : Machine} (hu : step.unwatched = step)
    (h : step.onward? = some m) : step = .next m := by
  cases step with
  | next m' =>
    cases h
    rfl
  | watched index m' => exact absurd hu nofun
  | finished m' | fault f m' | threw message m' => exact absurd h nofun

/-- Only a step that goes on is reported, and as what was found. -/
theorem Step.trap?_reported {step : Step} {hit : Option UInt32} {index : UInt32}
    (hu : step.unwatched = step) :
    (step.reported hit).trap? = some (.watchpoint index) ↔
      (∃ m, step = .next m) ∧ hit = some index := by
  cases step with
  | next m => cases hit <;> simp [reported, Machine.watchedAt, trap?]
  | watched index m => exact absurd hu (by simp [unwatched])
  | finished m | fault f m | threw message m => simp [reported, trap?]

namespace Machine

variable {setup : Setup} {watch : Breakpoints} {m m' : Machine} {frame : Frame}
  {callers : List Frame} {i : Instr} {step : Step} {index : UInt32}

/-! ## What an instruction accesses -/

/-- **What the instruction accesses falls under a watchpoint**, and `index` is the one that is
found. An address is the operand as an unsigned number plus the static offset; it does not wrap at
32 bits. -/
inductive Hits (watch : Breakpoints) (m : Machine) (index : UInt32) : Instr → Prop where
  | globalGet {g : UInt32} (h : watch.findGlobal g.toNat .read = some index) :
      Hits watch m index (.globalGet g)
  | globalSet {g : UInt32} (h : watch.findGlobal g.toNat .write = some index) :
      Hits watch m index (.globalSet g)
  | load {op : LoadOp} {arg : MemArg} {base : BitVec 32}
      (hbase : m.stack.peek? 0 = some (.i32 base))
      (h : watch.findMemory (base.toNat + arg.offset.toNat).toUInt64 op.bytes.toUInt64 .read =
        some index) : Hits watch m index (.load op arg)
  /-- The address lies under the value that is stored. -/
  | store {op : StoreOp} {arg : MemArg} {base : BitVec 32}
      (hbase : m.stack.peek? 1 = some (.i32 base))
      (h : watch.findMemory (base.toNat + arg.offset.toNat).toUInt64 op.bytes.toUInt64 .write =
        some index) : Hits watch m index (.store op arg)

/-- An integer operand of 32 bits, so many places below the top. -/
def address? (m : Machine) (depth : Nat) : Option (BitVec 32) :=
  (m.stack.peek? depth).bind (Value.asInt? .w32)

theorem address?_eq_some_iff {depth : Nat} {base : BitVec 32} :
    m.address? depth = some base ↔ m.stack.peek? depth = some (.i32 base) := by
  constructor
  · intro h
    obtain ⟨v, hv, hbase⟩ := Option.bind_eq_some_iff.mp h
    rw [hv, Value.asInt?_eq_some_iff.mp hbase]
    rfl
  · exact fun hv => Option.bind_eq_some_iff.mpr ⟨_, hv, rfl⟩

/-- The watchpoint that an instruction's access falls under. -/
def watchHit? (watch : Breakpoints) (m : Machine) : Instr → Option UInt32
  | .globalGet g => watch.findGlobal g.toNat .read
  | .globalSet g => watch.findGlobal g.toNat .write
  | .load op arg =>
    (m.address? 0).bind fun base => memoryWatch watch (effective base arg) op.bytes .read
  | .store op arg =>
    (m.address? 1).bind fun base => memoryWatch watch (effective base arg) op.bytes .write
  | _ => none

theorem watchHit?_load {op : LoadOp} {arg : MemArg} {base : BitVec 32}
    (h : m.address? 0 = some base) : watchHit? watch m (.load op arg) =
      memoryWatch watch (effective base arg) op.bytes .read := by
  simp only [watchHit?, h, Option.bind_some]

theorem watchHit?_store {op : StoreOp} {arg : MemArg} {base : BitVec 32}
    (h : m.address? 1 = some base) : watchHit? watch m (.store op arg) =
      memoryWatch watch (effective base arg) op.bytes .write := by
  simp only [watchHit?, h, Option.bind_some]

theorem watchHit?_of_not_accesses (h : i.accesses = false) : watchHit? watch m i = none := by
  cases i <;> first | rfl | exact absurd h nofun

/-- Nothing falls under the empty registry. -/
theorem watchHit?_empty (m : Machine) (i : Instr) : watchHit? {} m i = none := by
  cases i with
  | load _ _ | store _ _ => exact Option.bind_eq_none_iff.mpr fun _ _ => rfl
  | _ => rfl

/-- **The lookup is the predicate.** -/
theorem watchHit?_eq_some_iff : watchHit? watch m i = some index ↔ Hits watch m index i := by
  constructor
  · intro h
    cases i with
    | globalGet g => exact .globalGet h
    | globalSet g => exact .globalSet h
    | load op arg =>
      obtain ⟨base, hbase, h⟩ := Option.bind_eq_some_iff.mp h
      exact .load (address?_eq_some_iff.mp hbase) h
    | store op arg =>
      obtain ⟨base, hbase, h⟩ := Option.bind_eq_some_iff.mp h
      exact .store (address?_eq_some_iff.mp hbase) h
    | _ => exact absurd h (by simp [watchHit?])
  · intro h
    cases h with
    | globalGet h | globalSet h => exact h
    | load hbase h | store hbase h =>
      exact Option.bind_eq_some_iff.mpr ⟨_, address?_eq_some_iff.mpr hbase, h⟩

/-! ## Instructions that look nothing up -/

theorem unwatched_putBack {step : Step} (h : step.unwatched = step) (v : Value) :
    (step.putBack v).unwatched = step.putBack v := by
  cases step with
  | watched index m' => exact absurd h nofun
  | next _ | finished _ | fault _ _ | threw _ _ => rfl

theorem unwatched_push (m : Machine) (v : Value) :
    (m.executePush v).unwatched = m.executePush v := by
  unfold executePush
  split <;> rfl

theorem unwatched_return (setup : Setup) (m : Machine) :
    (m.returnFromFunction setup).unwatched = m.returnFromFunction setup := by
  unfold returnFromFunction
  split
  · rfl
  · split
    · rfl
    · simp only
      split <;> rfl

theorem unwatched_branch (setup : Setup) (m : Machine) (depth : Nat) :
    (m.branch setup depth).unwatched = m.branch setup depth := by
  unfold branch
  split
  · rfl
  · split
    · exact unwatched_return setup m
    · split
      · rfl
      · split <;> rfl

theorem unwatched_call (setup : Setup) (m : Machine) (f : Nat) :
    (m.call setup f).unwatched = m.call setup f := by
  rcases call_cases setup f m with ⟨_, h⟩ | ⟨_, h⟩ | ⟨_, h, -⟩ | ⟨_, _, _, _, _, -, -, -, -, h⟩
  all_goals
    rw [h]
    rfl

theorem unwatched_callIndirect (setup : Setup) (m : Machine) (type : Nat) :
    (m.callIndirect setup type).unwatched = m.callIndirect setup type := by
  unfold callIndirect
  split
  · rfl
  · split
    · rfl
    · split
      · rfl
      · split
        · exact unwatched_putBack (unwatched_call setup _ _) _
        · rfl

theorem unwatched_block (m : Machine) (r : Option ValueType) (t : Option Nat) :
    (m.executeBlock r t).unwatched = m.executeBlock r t := by
  unfold executeBlock
  split <;> rfl

theorem unwatched_if (m : Machine) (r : Option ValueType) (t arm : Option Nat) :
    (m.executeIf r t arm).unwatched = m.executeIf r t arm := by
  unfold executeIf
  split
  · simp only
    split
    · split <;> rfl
    · rfl
  · rfl

theorem unwatched_end (setup : Setup) (m : Machine) :
    (m.executeEnd setup).unwatched = m.executeEnd setup := by
  unfold executeEnd
  split
  · rfl
  · split
    · exact unwatched_return setup m
    · rfl

theorem unwatched_brIf (setup : Setup) (m : Machine) (depth : Nat) :
    (m.executeBrIf setup depth).unwatched = m.executeBrIf setup depth := by
  unfold executeBrIf
  split
  · rfl
  · simp only
    split
    · rfl
    · exact unwatched_putBack (unwatched_branch setup _ _) _

theorem unwatched_brTable (setup : Setup) (m : Machine) (depths : List UInt32) :
    (m.executeBrTable setup depths).unwatched = m.executeBrTable setup depths := by
  unfold executeBrTable
  split
  · exact unwatched_putBack (unwatched_branch setup _ _) _
  · rfl

theorem unwatched_drop (m : Machine) : m.executeDrop.unwatched = m.executeDrop := by
  unfold executeDrop
  split <;> rfl

theorem unwatched_select (m : Machine) : m.executeSelect.unwatched = m.executeSelect := by
  unfold executeSelect
  split
  · split <;> rfl
  · rfl

theorem unwatched_localGet (m : Machine) (index : Nat) :
    (m.executeLocalGet index).unwatched = m.executeLocalGet index := by
  unfold executeLocalGet
  split
  · rfl
  · exact unwatched_push m _

theorem unwatched_localSet (m : Machine) (index : Nat) (keep : Bool) :
    (m.executeLocalSet index keep).unwatched = m.executeLocalSet index keep := by
  unfold executeLocalSet
  split
  · split <;> rfl
  · rfl

theorem unwatched_memorySize (m : Machine) :
    m.executeMemorySize.unwatched = m.executeMemorySize := by
  unfold executeMemorySize
  split
  · rfl
  · exact unwatched_push m _

theorem unwatched_memoryGrow (m : Machine) :
    m.executeMemoryGrow.unwatched = m.executeMemoryGrow := by
  unfold executeMemoryGrow
  split
  · rfl
  · split
    · rfl
    · simp only
      split <;> rfl

theorem unwatched_withStack (m : Machine) (r : Except Fault OperandStack) :
    (m.withStack r).unwatched = m.withStack r := by
  cases r <;> rfl

/-- **An instruction that looks nothing up reports nothing**, under any registry. -/
theorem execute_unwatched (setup : Setup) (watch : Breakpoints) (m : Machine)
    (h : i.accesses = false) : (m.execute setup watch i).unwatched = m.execute setup watch i := by
  cases i with
  | unreachable | nop | loop _ _ => rfl
  | block r t => exact unwatched_block m r t
  | ifThen r t arm => exact unwatched_if m r t arm
  | elseThen t => cases t <;> rfl
  | blockEnd => exact unwatched_end setup m
  | br depth => exact unwatched_branch setup m _
  | brIf depth => exact unwatched_brIf setup m _
  | brTable depths => exact unwatched_brTable setup m depths
  | ret => exact unwatched_return setup m
  | call f => exact unwatched_call setup m _
  | callIndirect type => exact unwatched_callIndirect setup m _
  | drop => exact unwatched_drop m
  | select => exact unwatched_select m
  | localGet index => exact unwatched_localGet m _
  | localSet index | localTee index => exact unwatched_localSet m _ _
  | globalGet _ | globalSet _ | load _ _ | store _ _ => exact absurd h nofun
  | memorySize => exact unwatched_memorySize m
  | memoryGrow => exact unwatched_memoryGrow m
  | const v => exact unwatched_push m v
  | numeric op => exact unwatched_withStack m _

/-! ## What is reported -/

theorem globalGet_reported (watch : Breakpoints) (m : Machine) (index : Nat) :
    (m.executeGlobalGet watch index).unwatched.reported (watch.findGlobal index .read) =
      m.executeGlobalGet watch index := by
  unfold executeGlobalGet
  split
  · rfl
  · split
    · rfl
    · exact Step.reported_unwatched_watchedAt _ _

theorem globalSet_reported (watch : Breakpoints) (m : Machine) (index : Nat) :
    (m.executeGlobalSet setup watch index).unwatched.reported (watch.findGlobal index .write) =
      m.executeGlobalSet setup watch index := by
  unfold executeGlobalSet
  split
  · rfl
  · split
    · exact Step.reported_unwatched_watchedAt _ _
    · rfl

theorem load_reported (watch : Breakpoints) (m : Machine) (op : LoadOp) (arg : MemArg) :
    (m.executeLoad watch op arg).unwatched.reported (watchHit? watch m (.load op arg)) =
      m.executeLoad watch op arg := by
  unfold executeLoad
  split
  · rfl
  · split
    · rfl
    · rename_i base hbase
      rw [watchHit?_load hbase]
      simp only
      split
      · rfl
      · exact Step.reported_unwatched_watchedAt _ _

theorem store_reported (watch : Breakpoints) (m : Machine) (op : StoreOp) (arg : MemArg) :
    (m.executeStore watch op arg).unwatched.reported (watchHit? watch m (.store op arg)) =
      m.executeStore watch op arg := by
  unfold executeStore
  split
  · rfl
  · split
    · rename_i base _ hbase
      rw [watchHit?_store hbase]
      simp only
      split
      · exact Step.reported_unwatched_watchedAt _ _
      · rfl
    · rfl

theorem execute_reported (setup : Setup) (watch : Breakpoints) (m : Machine) (i : Instr) :
    (m.execute setup watch i).unwatched.reported (watchHit? watch m i) =
      m.execute setup watch i := by
  cases hi : i.accesses with
  | false =>
    rw [watchHit?_of_not_accesses hi, Step.reported_none, execute_unwatched setup watch m hi]
  | true =>
    cases i with
    | globalGet g => exact globalGet_reported watch m _
    | globalSet g => exact globalSet_reported watch m _
    | load op arg => exact load_reported watch m op arg
    | store op arg => exact store_reported watch m op arg
    | _ => exact absurd hi nofun

/-- What was reported of the instruction at the position is what its access falls under. -/
theorem reported_dispatch (watch : Breakpoints) (hi : fetch? setup m.ip = some i) :
    (m.dispatch setup watch).unwatched.reported (watchHit? watch m i) =
      m.dispatch setup watch := by
  unfold dispatch
  split
  · rfl
  · simp only [hi]
    exact execute_reported setup watch m i

/-- Nobody reports anything under the empty registry. -/
theorem dispatch_empty_unwatched (hi : fetch? setup m.ip = some i) :
    (m.dispatch setup {}).unwatched = m.dispatch setup {} := by
  have h := reported_dispatch {} hi
  rwa [watchHit?_empty, Step.reported_none] at h

/-- **Under every registry an instruction does what it does under the empty one**, and then it is
reported what its access falls under. -/
theorem dispatch_reported (watch : Breakpoints) (hi : fetch? setup m.ip = some i) :
    m.dispatch setup watch = (m.dispatch setup {}).reported (watchHit? watch m i) := by
  rw [← reported_dispatch watch hi, dispatch_unwatched, dispatch_empty_unwatched hi]

/-- An access to a global or to memory is a fault, or it goes on to the following instruction. -/
theorem Effect.access (he : Effect setup m frame callers i step) (hi : i.accesses = true) :
    (∃ f, step = .fault f m) ∨
      ∃ m', step.onward? = some m' ∧ m'.ip = ⟨m.ip.function, m.ip.instr + 1⟩ := by
  have hplain : i.bracket = .plain := by cases i <;> first | rfl | exact absurd hi nofun
  have hdepth : m.takenDepth? i = none := by cases i <;> first | rfl | exact absurd hi nofun
  have hcallee : m.callee? i = none := by cases i <;> first | rfl | exact absurd hi nofun
  have hnot : ¬ Leaves m frame.labels i := by
    intro hl
    cases hl with
    | ret | last _ => exact absurd hi nofun
    | branch hd => exact absurd (hdepth.symm.trans hd) nofun
  cases he with
  | fault f => exact Or.inl ⟨f, rfl⟩
  | threw message hc _ => exact absurd (hcallee.symm.trans hc) nofun
  | inside hstep hflow _ _ hip _ _ _ =>
    refine Or.inr ⟨_, hstep, ?_⟩
    cases hflow with
    | along _ _ => exact hip
    | _ => exact absurd hplain nofun
  | branched hd _ _ _ => exact absurd (hdepth.symm.trans hd) nofun
  | entered hc _ _ _ _ _ _ => exact absurd (hcallee.symm.trans hc) nofun
  | returned hl _ _ _ _ => exact absurd hl hnot
  | finished hl _ _ _ _ => exact absurd hl hnot

/-- The same of the instruction at the position, when nobody watches. -/
theorem dispatch_access (hf : m.frames ≠ []) (hi : fetch? setup m.ip = some i)
    (ha : i.accesses = true) :
    (∃ f, m.dispatch setup {} = .fault f m) ∨
      ∃ m', m.dispatch setup {} = .next m' ∧ m'.ip = ⟨m.ip.function, m.ip.instr + 1⟩ := by
  rcases dispatch_cases setup {} m with ⟨hnil, -⟩ | ⟨hnone, -⟩ | ⟨frame, callers, i', -, hi', he⟩
  · exact absurd hnil hf
  · exact absurd (hi.symm.trans hnone) nofun
  · cases Option.some.inj (hi.symm.trans hi')
    refine (he.access ha).imp_right ?_
    rintro ⟨m', hstep, hip⟩
    exact ⟨m', Step.eq_next_of_unwatched (dispatch_empty_unwatched hi) hstep, hip⟩

theorem Hits.accesses (h : Hits watch m index i) : i.accesses = true := by
  cases h <;> rfl

/-- **Watchpoints are reached by accesses that are done.** The instruction at the position comes to
a watchpoint if and only if it is no fault and what it accesses falls under that watchpoint:
reading or assigning a global, or reading or writing the bytes from the effective address on, as
many as the operation is wide. The machine is then, in all its parts, the one that the instruction
leaves under the empty registry, and it is behind the instruction. -/
theorem watchpoint_reached_iff (hf : m.frames ≠ []) (hi : fetch? setup m.ip = some i)
    (watch : Breakpoints) (index : UInt32) :
    ((m.dispatch setup watch).trap? = some (.watchpoint index) ↔
      (∀ f, (m.dispatch setup watch).trap? ≠ some (.fault f)) ∧ Hits watch m index i) ∧
    ((m.dispatch setup watch).trap? = some (.watchpoint index) →
      ∃ m', m.dispatch setup watch = .watched index m' ∧ m.dispatch setup {} = .next m' ∧
        m'.ip = ⟨m.ip.function, m.ip.instr + 1⟩) := by
  have hreported := dispatch_reported watch hi
  have htrap : (m.dispatch setup watch).trap? = some (.watchpoint index) ↔
      (∃ m', m.dispatch setup {} = .next m') ∧ Hits watch m index i := by
    rw [hreported, Step.trap?_reported (dispatch_empty_unwatched hi), watchHit?_eq_some_iff]
  refine ⟨⟨fun h => ⟨fun f => ?_, (htrap.mp h).2⟩, fun ⟨hdone, hhits⟩ => ?_⟩, fun h => ?_⟩
  · rw [h]
    simp
  · rcases dispatch_access hf hi hhits.accesses with ⟨f, hfault⟩ | ⟨m', hnext, -⟩
    · refine absurd ?_ (hdone f)
      rw [hreported, hfault]
      rfl
    · exact htrap.mpr ⟨⟨m', hnext⟩, hhits⟩
  · obtain ⟨⟨m', hnext⟩, hhits⟩ := htrap.mp h
    rcases dispatch_access hf hi hhits.accesses with ⟨f, hfault⟩ | ⟨m'', hnext', hip⟩
    · exact absurd (hnext.symm.trans hfault) nofun
    · cases hnext.symm.trans hnext'
      refine ⟨m', ?_, hnext, hip⟩
      rw [hreported, hnext, watchHit?_eq_some_iff.mpr hhits]
      rfl

/-- As many bytes are looked up as the operation is wide, in the order of the operations' codes. -/
example : LoadOp.all.map LoadOp.bytes = [4, 8, 4, 8, 1, 1, 2, 2, 1, 1, 2, 2, 4, 4] := by decide

example : StoreOp.all.map StoreOp.bytes = [4, 8, 4, 8, 1, 2, 1, 2, 4] := by decide

/-- A function that stores two bytes at its operand plus two. -/
def storingHalf : Setup where
  module :=
    { types := #[⟨[], []⟩]
      functions := #[.defined 0 [] #[.store (.narrow .i32As16) ⟨1, 2⟩, .blockEnd]] }
  limits := {}
  bridge := .unavailable

/-- It, about to store at address three. -/
def aboutToStoreHalf : Machine where
  ip := ⟨0, 0⟩
  stack := ((OperandStack.empty 8).restore (.i32 1)).restore (.i32 0x10203)
  frames := [⟨0, #[], ⟨0, 0⟩, 0, []⟩]
  globals := #[]
  memories := #[⟨⟨#[0, 0, 0, 0, 0, 0]⟩, 0, 1⟩]
  tables := #[]

/-- Watchpoints for writes on the bytes before the store, behind it, and on its last one. -/
def watchingHalf : Breakpoints :=
  let r := (Breakpoints.add {} (.memory .write 0 3)).2
  let r := (r.add (.memory .write 5 8)).2
  (r.add (.memory .readWrite 4 1)).2

/-- Only the last is reached, and the bytes are there. -/
theorem watchpoint_reached_storingHalf :
    aboutToStoreHalf.frames ≠ [] ∧
      fetch? storingHalf aboutToStoreHalf.ip = some (.store (.narrow .i32As16) ⟨1, 2⟩) ∧
      (aboutToStoreHalf.dispatch storingHalf watchingHalf).trap? = some (.watchpoint 2) ∧
      ∃ m', aboutToStoreHalf.dispatch storingHalf watchingHalf = .watched 2 m' ∧
        aboutToStoreHalf.dispatch storingHalf {} = .next m' ∧ m'.ip = ⟨0, 1⟩ := by
  have hf : aboutToStoreHalf.frames ≠ [] := by decide
  have hi : fetch? storingHalf aboutToStoreHalf.ip =
      some (.store (.narrow .i32As16) ⟨1, 2⟩) := rfl
  have hbase : aboutToStoreHalf.stack.peek? 1 = some (.i32 1) := rfl
  have hhits : Hits watchingHalf aboutToStoreHalf 2 (.store (.narrow .i32As16) ⟨1, 2⟩) :=
    .store hbase (by decide)
  have hdone : ∀ f,
      (aboutToStoreHalf.dispatch storingHalf watchingHalf).trap? ≠ some (.fault f) := by
    intro f
    rw [show (aboutToStoreHalf.dispatch storingHalf watchingHalf).trap? =
      some (.watchpoint 2) from rfl]
    simp
  have hreached := watchpoint_reached_iff hf hi watchingHalf 2
  have htrap := hreached.1.mpr ⟨hdone, hhits⟩
  exact ⟨hf, hi, htrap, hreached.2 htrap⟩

end Machine

end WasmDebugger
