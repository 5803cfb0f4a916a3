import WasmDebugger.Proofs.Watchpoints

/-!
# Watched ranges

A watchpoint for memory watches the bytes from its address on. An access falls under it when the
two have a byte in common, unless the watchpoint watches no byte at all.

* `Shares`: a byte of the access is watched.
* `Straddles`: nothing is watched, but the access begins before the address of the watchpoint and
  ends behind it.
* **`memory_lookup_finds_lowest`**: a lookup answers with the lowest index of a live watchpoint of
  one of these two kinds. Where none straddles, it is the lowest that shares a byte.
* `empty_range_reported`: a watchpoint of no bytes is found all the same, at a concrete access.
-/

namespace WasmDebugger

/-- A trigger includes a kind of access. -/
def Trigger.Includes (t kind : Trigger) : Prop := t = kind ∨ t = .readWrite

/-- Against a single kind of access, matching is inclusion. -/
theorem Trigger.matches?_iff_includes {t kind : Trigger} (h : kind ≠ .readWrite) :
    t.matches? kind = true ↔ t.Includes kind := by
  cases kind with
  | readWrite => exact absurd rfl h
  | read | write => cases t <;> simp [matches?, Includes]

namespace Breakpoints

/-! ## Ranges -/

/-- The watchpoint reacts to the kind of access, and a byte lies in both ranges. -/
inductive Shares (kind : Trigger) (address n : Nat) : Breakpoint → Prop where
  | intro {t : Trigger} {start length : UInt32} {k : Nat} (ht : t.Includes kind)
      (hwatched : start.toNat ≤ k ∧ k < start.toNat + length.toNat)
      (haccessed : address ≤ k ∧ k < address + n) : Shares kind address n (.memory t start length)

/-- The watchpoint reacts to the kind of access and watches nothing, at an address that lies in
the access behind its first byte. -/
inductive Straddles (kind : Trigger) (address n : Nat) : Breakpoint → Prop where
  | intro {t : Trigger} {start : UInt32} (ht : t.Includes kind)
      (h : address < start.toNat ∧ start.toNat < address + n) :
      Straddles kind address n (.memory t start 0)

variable {r : Breakpoints} {kind t : Trigger} {start length index : UInt32} {address n : Nat}
  {b : Breakpoint}

/-- Two ranges of which none is empty have a byte in common if each begins before the other
ends. -/
theorem exists_shared_iff {start length : Nat} (hlength : 0 < length) (hn : 0 < n) :
    (∃ k, (start ≤ k ∧ k < start + length) ∧ address ≤ k ∧ k < address + n) ↔
      start < address + n ∧ address < start + length := by
  constructor
  · rintro ⟨k, _, _⟩
    omega
  · rintro ⟨_, _⟩
    -- the later of the two beginnings
    exact ⟨max start address, by omega, by omega⟩

theorem shares_memory_iff : Shares kind address n (.memory t start length) ↔
    t.Includes kind ∧ ∃ k, (start.toNat ≤ k ∧ k < start.toNat + length.toNat) ∧
      address ≤ k ∧ k < address + n := by
  constructor
  · rintro ⟨ht, hwatched, haccessed⟩
    exact ⟨ht, _, hwatched, haccessed⟩
  · rintro ⟨ht, _, hwatched, haccessed⟩
    exact .intro ht hwatched haccessed

theorem straddles_memory_iff : Straddles kind address n (.memory t start length) ↔
    t.Includes kind ∧ length = 0 ∧ address < start.toNat ∧ start.toNat < address + n := by
  constructor
  · rintro ⟨ht, h⟩
    exact ⟨ht, rfl, h⟩
  · rintro ⟨ht, rfl, h⟩
    exact .intro ht h

/-- **Ranges meet if they share a byte or the watched one is straddled.** -/
theorem hit_memory_iff (hkind : kind ≠ .readWrite) (hn : 0 < n) (hend : address + n < 2 ^ 64) :
    (t.matches? kind && rangesMeet start length address.toUInt64 n.toUInt64) = true ↔
      Shares kind address n (.memory t start length) ∨
        Straddles kind address n (.memory t start length) := by
  rw [Bool.and_eq_true, Trigger.matches?_iff_includes hkind, rangesMeet_iff hend,
    shares_memory_iff, straddles_memory_iff, ← and_or_left]
  refine and_congr_right fun _ => ?_
  by_cases hlength : length = 0
  · subst hlength
    have hnone : ¬ ∃ k, (start.toNat ≤ k ∧ k < start.toNat + (0 : UInt32).toNat) ∧
        address ≤ k ∧ k < address + n := by
      rintro ⟨k, ⟨hle, hlt⟩, -⟩
      exact absurd hlt (Nat.not_lt.mpr hle)
    rw [or_iff_right hnone]
    exact ⟨fun ⟨hend, hbegin⟩ => ⟨rfl, hbegin, hend⟩, fun ⟨_, hbegin, hend⟩ => ⟨hend, hbegin⟩⟩
  · have hpos : 0 < length.toNat := by
      rw [Nat.pos_iff_ne_zero]
      exact fun h => hlength (UInt32.toNat_inj.mp h)
    rw [exists_shared_iff hpos hn]
    simp [hlength]

/-! ## Lookups -/

/-- The lowest index of a live entry with a property. -/
def LowestWith (r : Breakpoints) (P : Breakpoint → Prop) (index : UInt32) : Prop :=
  (∃ b, r.get? index = some b ∧ P b) ∧ ∀ j b, r.get? j = some b → P b → index ≤ j

/-- A property that the same live entries have has the same lowest index. -/
theorem lowestWith_congr {P Q : Breakpoint → Prop}
    (h : ∀ j b, r.get? j = some b → (P b ↔ Q b)) : r.LowestWith P index ↔ r.LowestWith Q index := by
  refine and_congr ?_ ?_
  · exact exists_congr fun b => and_congr_right fun hb => h index b hb
  · exact forall_congr' fun j => forall_congr' fun b => forall_congr' fun hb =>
      imp_congr_left (h j b hb)

theorem find?_iff_lowestWith (hr : r.Built) {hit : Breakpoint → Bool} :
    r.find? hit = some index ↔ r.LowestWith (fun b => hit b = true) index :=
  find?_eq_some_iff hr

/-- A lookup finds nothing when no live entry is hit. -/
theorem find?_eq_none_iff (hr : r.Built) {hit : Breakpoint → Bool} :
    r.find? hit = none ↔ ∀ j b, r.get? j = some b → ¬ hit b = true := by
  constructor
  · intro h j b hb hhit
    obtain ⟨found, hfound⟩ := find?_of_live hb hhit
    rw [h] at hfound
    exact absurd hfound (by simp)
  · intro h
    rw [Option.eq_none_iff_forall_ne_some]
    intro index hfound
    obtain ⟨⟨b, hb, hhit⟩, -⟩ := (find?_eq_some_iff hr).mp hfound
    exact h index b hb hhit

/-- Only watchpoints for memory share a byte with an access or are straddled by it. -/
theorem hit_iff (hkind : kind ≠ .readWrite) (hn : 0 < n) (hend : address + n < 2 ^ 64) :
    (match b with
      | .memory t start length =>
        t.matches? kind && rangesMeet start length address.toUInt64 n.toUInt64
      | _ => false) = true ↔ Shares kind address n b ∨ Straddles kind address n b := by
  cases b with
  | memory t start length => exact hit_memory_iff hkind hn hend
  | code p => exact iff_of_false (by simp) (fun h => h.elim nofun nofun)
  | global t g => exact iff_of_false (by simp) (fun h => h.elim nofun nofun)

/-- **A lookup of an access to memory answers with the lowest index** of a live watchpoint that
reacts to its kind and shares a byte with it, or is straddled by it; and it finds nothing only
where there is none of either kind. Where the access straddles no live watchpoint, the answer is
the lowest that shares a byte. -/
theorem memory_lookup_finds_lowest (hr : r.Built) {address n : UInt64} (hkind : kind ≠ .readWrite)
    (hn : 0 < n.toNat) (hend : address.toNat + n.toNat < 2 ^ 64) :
    (∀ index, r.findMemory address n kind = some index ↔ r.LowestWith
      (fun b => Shares kind address.toNat n.toNat b ∨ Straddles kind address.toNat n.toNat b)
      index) ∧
    (r.findMemory address n kind = none ↔ ∀ j b, r.get? j = some b →
      ¬ Shares kind address.toNat n.toNat b ∧ ¬ Straddles kind address.toNat n.toNat b) ∧
    ((∀ j b, r.get? j = some b → ¬ Straddles kind address.toNat n.toNat b) →
      (∀ index, r.findMemory address n kind = some index ↔
        r.LowestWith (Shares kind address.toNat n.toNat) index) ∧
      (r.findMemory address n kind = none ↔
        ∀ j b, r.get? j = some b → ¬ Shares kind address.toNat n.toNat b)) := by
  have hhit : ∀ b, _ := fun b => hit_iff (b := b) hkind hn hend
  simp only [Nat.toUInt64, UInt64.ofNat_toNat] at hhit
  have hsome : ∀ index, r.findMemory address n kind = some index ↔ r.LowestWith
      (fun b => Shares kind address.toNat n.toNat b ∨ Straddles kind address.toNat n.toNat b)
      index := fun index =>
    (find?_iff_lowestWith hr).trans (lowestWith_congr fun _ b _ => hhit b)
  have hnone : r.findMemory address n kind = none ↔ ∀ j b, r.get? j = some b →
      ¬ Shares kind address.toNat n.toNat b ∧ ¬ Straddles kind address.toNat n.toNat b := by
    refine (find?_eq_none_iff hr).trans ?_
    exact forall_congr' fun j => forall_congr' fun b => imp_congr_right fun _ =>
      (not_congr (hhit b)).trans not_or
  refine ⟨hsome, hnone, fun hstraddle => ⟨fun index => ?_, ?_⟩⟩
  · refine (hsome index).trans (lowestWith_congr fun j b hb => ?_)
    exact or_iff_left (hstraddle j b hb)
  · refine hnone.trans ?_
    exact forall_congr' fun j => forall_congr' fun b => imp_congr_right fun hb =>
      and_iff_left (hstraddle j b hb)

/-- Watchpoints on four bytes for writes, after one that has been removed, and on eight bytes that
reach past the last address. -/
def watchingBytes : Breakpoints :=
  let r := (Breakpoints.add {} (.memory .readWrite 0 4294967295)).2
  let r := (r.add (.memory .write 16 4)).2
  let r := (r.add (.memory .readWrite 4294967294 8)).2
  (r.remove 0).2

theorem built_watchingBytes : watchingBytes.Built :=
  .removed 0 (.added _ (.added _ (.added _ .empty)))

/-- The last byte of an access is the first that is watched, and the other way round. -/
theorem memory_lookup_finds_lowest_bytes :
    watchingBytes.Built ∧
      watchingBytes.LowestWith
        (fun b => Shares .write 14 3 b ∨ Straddles .write 14 3 b) 1 ∧
      watchingBytes.LowestWith
        (fun b => Shares .read 4294967301 8 b ∨ Straddles .read 4294967301 8 b) 2 ∧
      ∀ j b, watchingBytes.get? j = some b →
        ¬ Shares .write 12 4 b ∧ ¬ Straddles .write 12 4 b := by
  have hread : Trigger.read ≠ .readWrite := by decide
  have hwrite : Trigger.write ≠ .readWrite := by decide
  have hfirst := memory_lookup_finds_lowest built_watchingBytes hwrite
    (show 0 < (3 : UInt64).toNat by decide)
    (show (14 : UInt64).toNat + (3 : UInt64).toNat < 2 ^ 64 by decide)
  have hlast := memory_lookup_finds_lowest built_watchingBytes hread
    (show 0 < (8 : UInt64).toNat by decide)
    (show (4294967301 : UInt64).toNat + (8 : UInt64).toNat < 2 ^ 64 by decide)
  have hnone := memory_lookup_finds_lowest built_watchingBytes hwrite
    (show 0 < (4 : UInt64).toNat by decide)
    (show (12 : UInt64).toNat + (4 : UInt64).toNat < 2 ^ 64 by decide)
  exact ⟨built_watchingBytes, (hfirst.1 1).mp (by decide), (hlast.1 2).mp (by decide),
    hnone.2.1.mp (by decide)⟩

/-! ## A watchpoint of no bytes -/

/-- A watchpoint for writes to no byte. -/
def watchingNothing : Breakpoints := (Breakpoints.add {} (.memory .write 256 0)).2

/-- **A watchpoint of no bytes is found** by an access that straddles it, although no live
watchpoint shares a byte with that access. -/
theorem empty_range_reported :
    watchingNothing.Built ∧ watchingNothing.findMemory 254 4 .write = some 0 ∧
      ∀ j b, watchingNothing.get? j = some b → ¬ Shares .write 254 4 b := by
  refine ⟨.added _ .empty, by decide, fun j b hb hshares => ?_⟩
  have hlive : ∀ e ∈ watchingNothing.entries, e.2 = .memory .write 256 0 := by decide
  have hb : b = .memory .write 256 0 :=
    hlive (j, b) ((Built.added _ .empty : watchingNothing.Built).ordered.lookup_eq_some_iff.mp hb)
  subst hb
  obtain ⟨-, k, ⟨hle, hlt⟩, -⟩ := shares_memory_iff.mp hshares
  exact absurd hlt (Nat.not_lt.mpr hle)

end Breakpoints

end WasmDebugger
