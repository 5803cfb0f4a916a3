import Mathlib.Algebra.Group.Nat.Defs
import WasmDebugger.Proofs.Registry
import WasmDebugger.Proofs.Stopping
import WasmDebugger.Proofs.Writes

/-!
# Watched writes

A watchpoint for writes is there to stop execution when what it watches has changed.

* `LinearMemory.byte?_write`, `LinearMemory.byte?_grow?`: a store leaves bytes outside its range
  alone, and growth leaves all of them alone.
* `findGlobal_of_live`, `findMemory_of_live`: a lookup misses no live watchpoint that an access
  falls under.
* `WatchedChange`: a live watchpoint watches something for writes that has changed.
* **`watched_change_reported_iff`**: such a change by an instruction is reported if and only if the
  instruction did not ask the host. A function entered from outside changes nothing unless it is
  imported, and then nothing is reported.
* `host_write_unreported`: what the host hands back is not looked up, at a concrete call.
-/

namespace WasmDebugger

/-! ## Bytes -/

namespace LinearMemory

variable {bytes : ByteArray} {memory grown : LinearMemory} {k : Nat}

/-- The byte at an address. -/
def byte? (memory : LinearMemory) (k : Nat) : Option UInt8 := memory.bytes.data[k]?

theorem getElem?_setByte {address : Nat} (b : UInt8) (h : k ≠ address) :
    (setByte bytes address b).data[k]? = bytes.data[k]? := by
  unfold setByte
  split
  · rw [ByteArray.data_set, Array.getElem?_set_ne]
    exact fun he => h he.symm
  · rfl

theorem getElem?_writeNat {address length : Nat} (n : Nat)
    (h : k < address ∨ address + length ≤ k) :
    (writeNat bytes address n length).data[k]? = bytes.data[k]? := by
  induction length generalizing bytes address n with
  | zero => rfl
  | succ length ih =>
    unfold writeNat
    rw [ih _ (by omega), getElem?_setByte _ (by omega)]

/-- A store leaves the bytes outside its range alone. -/
theorem byte?_write {address length : Nat} (n : Nat) (h : k < address ∨ address + length ≤ k) :
    (memory.write address length n).byte? k = memory.byte? k :=
  getElem?_writeNat n h

theorem data_appendPages (bytes : ByteArray) (pages : Nat) :
    (appendPages bytes pages).data = bytes.data ++ Array.replicate (pages * pageSize) 0 := by
  induction pages generalizing bytes with
  | zero => simp [appendPages]
  | succ pages ih =>
    rw [appendPages, ih, ByteArray.data_append, Array.append_assoc, Nat.succ_mul, Nat.add_comm]
    exact congrArg (bytes.data ++ ·) Array.replicate_append_replicate

theorem data_fillUp (bytes : ByteArray) (size : Nat) :
    (fillUp bytes size).data = bytes.data ++ Array.replicate (size - bytes.size) 0 := by
  unfold fillUp
  simp only
  rw [ByteArray.data_append, data_appendPages, Array.append_assoc,
    Array.replicate_append_replicate, Nat.div_add_mod']

theorem getElem?_fillUp {b : UInt8} (size : Nat) (h : bytes.data[k]? = some b) :
    (fillUp bytes size).data[k]? = some b := by
  obtain ⟨hk, -⟩ := Array.getElem?_eq_some_iff.mp h
  rw [data_fillUp, Array.getElem?_append_left hk]
  exact h

/-- Growth leaves the bytes that are there alone. -/
theorem byte?_grow? {delta : UInt32} {b : UInt8} (hg : memory.grow? delta = some grown)
    (h : memory.byte? k = some b) : grown.byte? k = some b := by
  unfold grow? at hg
  split at hg
  · exact absurd hg (by simp)
  · cases hg
    exact getElem?_fillUp _ h

end LinearMemory

/-- No store writes more than eight bytes. -/
theorem StoreOp.bytes_le (op : StoreOp) : op.bytes ≤ 8 := by
  cases op with
  | whole t => cases t <;> decide
  | narrow part => cases part <;> decide

/-! ## Lookups -/

namespace Breakpoints

variable {r : Breakpoints} {index : UInt32} {t : Trigger}

theorem find?_of_live {hit : Breakpoint → Bool} {b : Breakpoint} (h : r.get? index = some b)
    (hb : hit b = true) : ∃ found, r.find? hit = some found := by
  obtain ⟨before, after, hentries, -⟩ := List.lookup_eq_some_iff.mp h
  have hsome : (r.entries.find? fun e => hit e.2).isSome = true := by
    rw [List.find?_isSome]
    exact ⟨(index, b), by rw [hentries]; simp, hb⟩
  obtain ⟨e, he⟩ := Option.isSome_iff_exists.mp hsome
  unfold find?
  exact ⟨e.1, by rw [he]; rfl⟩

theorem matches?_write (h : t ≠ .read) : t.matches? .write = true := by
  cases t with
  | read => exact absurd rfl h
  | write | readWrite => rfl

/-- A write to a global is found by the watchpoints on that global. -/
theorem findGlobal_of_live {g : UInt32} (h : r.get? index = some (.global t g)) (ht : t ≠ .read) :
    ∃ found, r.findGlobal g.toNat .write = some found :=
  find?_of_live h (by simp [matches?_write ht])

/-- Ranges meet as ranges of natural numbers do, as long as the access ends below `2 ^ 64`. -/
theorem rangesMeet_iff {start length : UInt32} {address n : Nat} (h : address + n < 2 ^ 64) :
    rangesMeet start length address.toUInt64 n.toUInt64 = true ↔
      start.toNat < address + n ∧ address < start.toNat + length.toNat := by
  have hstart := start.toNat_lt
  have hlength := length.toNat_lt
  unfold rangesMeet
  simp only [Bool.and_eq_true, decide_eq_true_eq, UInt64.lt_iff_toNat_lt, UInt64.toNat_add,
    UInt32.toNat_toUInt64, Nat.toUInt64, UInt64.toNat_ofNat']
  rw [Nat.mod_eq_of_lt (show address < 2 ^ 64 by omega), Nat.mod_eq_of_lt (show n < 2 ^ 64 by omega),
    Nat.mod_eq_of_lt h, Nat.mod_eq_of_lt (show start.toNat + length.toNat < 2 ^ 64 by omega)]

/-- A write to memory is found by the watchpoints on any byte of its range. -/
theorem findMemory_of_live {start length : UInt32} {address n k : Nat}
    (h : r.get? index = some (.memory t start length)) (ht : t ≠ .read)
    (hk : start.toNat ≤ k ∧ k < start.toNat + length.toNat) (hrange : address ≤ k ∧ k < address + n)
    (hend : address + n < 2 ^ 64) :
    ∃ found, r.findMemory address.toUInt64 n.toUInt64 .write = some found := by
  refine find?_of_live h ?_
  simp only [matches?_write ht, Bool.true_and]
  exact (rangesMeet_iff hend).mpr ⟨by omega, by omega⟩

end Breakpoints

/-! ## Watched changes -/

namespace Machine

/-- A byte of the first memory. -/
def byte? (m : Machine) (k : Nat) : Option UInt8 := m.memory?.bind fun memory => memory.byte? k

/-- **Something that is watched for writes has changed** from one machine to the next: a global
under a live watchpoint, or a byte in the range of one. -/
inductive WatchedChange (watch : Breakpoints) (m m' : Machine) : Prop where
  | global {index g : UInt32} {t : Trigger} (h : watch.get? index = some (.global t g))
      (ht : t ≠ .read) (hv : m'.globals[g.toNat]? ≠ m.globals[g.toNat]?)
  | byte {index start length : UInt32} {t : Trigger} {k : Nat} {b : UInt8}
      (h : watch.get? index = some (.memory t start length)) (ht : t ≠ .read)
      (hk : start.toNat ≤ k ∧ k < start.toNat + length.toNat)
      (hb : m.byte? k = some b) (hb' : m'.byte? k ≠ some b)

variable {setup : Setup} {watch : Breakpoints} {m m' asking : Machine} {step : Step}
  {next : Position} {call : ImportCall}

/-- What is kept has not changed. -/
theorem WatchedChange.not_keeps (h : WatchedChange watch m step.machine) : ¬ step.Keeps m := by
  intro hk
  cases h with
  | global _ _ hv => exact hv (by rw [hk.globals])
  | byte _ _ _ hb hb' =>
    unfold byte? memory? at hb hb'
    rw [hk.memories] at hb'
    exact hb' hb

/-- An assignment that changes something watched is found. -/
theorem WatchedChange.assigned {index : UInt32} {v : Value} (h : WatchedChange watch m m')
    (hglobals : m'.globals = m.globals.setIfInBounds index.toNat v)
    (hmemories : m'.memories = m.memories) :
    ∃ found, watch.findGlobal index.toNat .write = some found := by
  cases h with
  | @global _ g _ hlive ht hv =>
    by_cases hg : index.toNat = g.toNat
    · rw [hg]
      exact Breakpoints.findGlobal_of_live hlive ht
    · rw [hglobals, Array.getElem?_setIfInBounds_ne hg] at hv
      exact absurd rfl hv
  | byte _ _ _ hb hb' =>
    unfold byte? memory? at hb hb'
    rw [hmemories] at hb'
    exact absurd hb hb'

/-- A store that changes something watched is found. -/
theorem WatchedChange.stored {address n : Nat} {op : StoreOp} (h : WatchedChange watch m m')
    (hglobals : m'.globals = m.globals)
    (hmemories : m'.memories =
      m.memories.modify 0 fun memory => memory.write address op.bytes n)
    (haddress : address < 2 ^ 33) :
    ∃ found, memoryWatch watch address op.bytes .write = some found := by
  cases h with
  | global _ _ hv => exact absurd (by rw [hglobals]) hv
  | @byte _ start length _ k b hlive ht hk hb hb' =>
    have hbytes := op.bytes_le
    have hmemory : m'.memory? = m.memory?.map fun memory => memory.write address op.bytes n := by
      unfold memory?
      rw [hmemories, Array.getElem?_modify, if_pos rfl]
    by_cases hrange : address ≤ k ∧ k < address + op.bytes
    · exact Breakpoints.findMemory_of_live hlive ht hk hrange (by omega)
    · refine absurd ?_ hb'
      obtain ⟨memory, hm, hb⟩ := Option.bind_eq_some_iff.mp hb
      unfold byte?
      rw [hmemory, hm]
      exact (LinearMemory.byte?_write n (by omega)).trans hb

/-- Growth changes nothing that is watched. -/
theorem not_watchedChange_grown {memory grown : LinearMemory} {delta : UInt32}
    (hmemory : m.memory? = some memory) (hgrow : memory.grow? delta = some grown)
    (hglobals : m'.globals = m.globals)
    (hmemories : m'.memories = m.memories.setIfInBounds 0 grown) : ¬ WatchedChange watch m m' := by
  intro h
  cases h with
  | global _ _ hv => exact hv (by rw [hglobals])
  | byte _ _ _ hb hb' =>
    refine hb' ?_
    obtain ⟨memory', hm, hb⟩ := Option.bind_eq_some_iff.mp hb
    rw [hmemory] at hm
    cases hm
    obtain ⟨hsize, -⟩ := Array.getElem?_eq_some_iff.mp hmemory
    have hgrown : m'.memory? = some grown := by
      unfold memory?
      rw [hmemories, Array.getElem?_setIfInBounds_self_of_lt hsize]
    unfold byte?
    rw [hgrown]
    exact LinearMemory.byte?_grow? hgrow hb

/-- The address of an access lies below `2 ^ 33`. -/
theorem effective_lt (base : BitVec 32) (arg : MemArg) : effective base arg < 2 ^ 33 := by
  have hbase := base.isLt
  have hoffset := arg.offset.toNat_lt
  unfold effective
  omega

/-- An answer of the host is no watchpoint. -/
theorem Answered.trap?_ne_watchpoint (h : Answered setup m asking next call step)
    (index : UInt32) : step.trap? ≠ some (.watchpoint index) := by
  cases h <;> simp [Step.trap?]

/-- A lookup that finds a watchpoint is reported. -/
theorem trap?_watchedAt {hit : Option UInt32} (h : ∃ found, hit = some found) :
    ∃ index, (m.watchedAt hit).trap? = some (.watchpoint index) := by
  obtain ⟨index, rfl⟩ := h
  exact ⟨index, rfl⟩

/-- **A watched change by an instruction is reported if and only if the instruction did not ask
the host**, under any registry. A function entered from outside changes something watched only if
it is imported; then it has finished, and nothing is reported. -/
theorem watched_change_reported_iff (setup : Setup) (watch : Breakpoints) (m : Machine) :
    (WatchedChange watch m (m.dispatch setup watch).machine →
      ((∃ index, (m.dispatch setup watch).trap? = some (.watchpoint index)) ↔
        hostCall? setup m = none)) ∧
    ∀ f args, WatchedChange watch m (Execution.enterEntry setup f args m).machine →
      (∃ t name, setup.module.functions[f]? = some (.imported t name)) ∧
        (Execution.enterEntry setup f args m).trap? = some .finished := by
  refine ⟨fun h => ?_, fun f args h => ?_⟩
  · rcases dispatch_written setup watch m with hk | ⟨i, hi, hw⟩
    · exact absurd hk h.not_keeps
    · have hcall : hostCall? setup m = m.asks? setup i := by
        unfold hostCall?
        rw [hi, Option.bind_some]
      rw [hcall]
      generalize m.dispatch setup watch = step at h hw
      cases hw with
      | kept hk => exact absurd hk h.not_keeps
      | assigned hinstr hglobals hmemories =>
        rw [machine_watchedAt] at h
        subst hinstr
        exact iff_of_true (trap?_watchedAt (h.assigned hglobals hmemories)) rfl
      | stored hinstr hglobals hmemories =>
        rw [machine_watchedAt] at h
        subst hinstr
        have hfound := h.stored hglobals hmemories (effective_lt _ _)
        exact iff_of_true (trap?_watchedAt hfound) rfl
      | grown _ hmemory hgrow hglobals hmemories =>
        exact absurd h (not_watchedChange_grown hmemory hgrow hglobals hmemories)
      | answered hasks ha =>
        rw [hasks]
        exact iff_of_false (fun ⟨index, ht⟩ => ha.trap?_ne_watchpoint index ht) (by simp)
  · rcases enterEntry_written setup f args m with hk | ⟨himported, m', hm'⟩
    · exact absurd hk h.not_keeps
    · rw [hm']
      exact ⟨himported, rfl⟩

/-- An assignment, about to be carried out. -/
def aboutToAssign : Machine := (Execution.beginning.machine.dispatch Execution.assigning {}).machine

/-- Its global, watched for writes. -/
def watchingGlobal : Breakpoints := (Breakpoints.add {} (.global .write 0)).2

/-- The assignment is reported. -/
theorem watched_change_reported_assigned :
    WatchedChange watchingGlobal aboutToAssign
        (aboutToAssign.dispatch Execution.assigning watchingGlobal).machine ∧
      ∃ index, (aboutToAssign.dispatch Execution.assigning watchingGlobal).trap? =
        some (.watchpoint index) := by
  have hchange : WatchedChange watchingGlobal aboutToAssign
      (aboutToAssign.dispatch Execution.assigning watchingGlobal).machine :=
    .global (show watchingGlobal.get? 0 = some (.global .write 0) by decide) (by decide) (by decide)
  have hreported := (watched_change_reported_iff Execution.assigning watchingGlobal _).1 hchange
  exact ⟨hchange, hreported.mpr rfl⟩

/-! ## A write by the host -/

/-- A host that sets the only global to seven. -/
def settingHost : Bridge :=
  .host { byIndex := [(0, fun call => ⟨.result ⟨none, #[.i32 7], call.memory⟩, 0⟩)] }

/-- A function that calls it. -/
def hostSetting : Setup where
  module :=
    { types := #[⟨[], []⟩]
      functions := #[.imported 0 ⟨"env", "set"⟩, .defined 0 [] #[.call 0, .blockEnd]]
      globals := #[⟨.i32, true, .init (.const (.i32 0))⟩] }
  limits := {}
  bridge := settingHost

/-- The function, about to call. -/
def aboutToSet : Machine where
  ip := ⟨1, 0⟩
  stack := .empty 1048576
  frames := [⟨1, #[], ⟨0, 0⟩, 0, []⟩]
  globals := #[.i32 0]
  memories := #[]
  tables := #[]

theorem reachable_aboutToSet : Reachable hostSetting.module hostSetting.limits aboutToSet := by
  have hnew : instantiate? hostSetting.module hostSetting.limits =
      .ok { aboutToSet with ip := ⟨0, 0⟩, frames := [] } := by
    unfold instantiate? hostSetting
    simp only [List.map_toArray, List.map_nil]
    rfl
  have hcalled : Reachable hostSetting.module hostSetting.limits
      (Execution.enterEntry hostSetting 1 [] _).machine :=
    .called settingHost (.created hnew) rfl
  exact hcalled

/-- **What the host hands back is not looked up**: the global that is watched for writes changes,
and neither a call by an instruction nor one from outside is stopped. -/
theorem host_write_unreported :
    Reachable hostSetting.module hostSetting.limits aboutToSet ∧
      watchingGlobal.get? 0 = some (.global .write 0) ∧
      WatchedChange watchingGlobal aboutToSet
        (aboutToSet.dispatch hostSetting watchingGlobal).machine ∧
      (aboutToSet.dispatch hostSetting watchingGlobal).trap? = none ∧
      WatchedChange watchingGlobal aboutToSet
        (Execution.enterEntry hostSetting 0 [] aboutToSet).machine ∧
      (Execution.enterEntry hostSetting 0 [] aboutToSet).trap? = some .finished := by
  have hlive : watchingGlobal.get? 0 = some (.global .write 0) := by decide
  exact ⟨reachable_aboutToSet, hlive, .global hlive (by decide) (by decide), rfl,
    .global hlive (by decide) (by decide), rfl⟩

end Machine

end WasmDebugger
