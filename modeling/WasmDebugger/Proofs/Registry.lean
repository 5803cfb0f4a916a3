import WasmDebugger.Breakpoints

/-!
# Registries in order

A lookup goes through the entries in the order in which they stand, and answers with the first
that an access hits. In every registry that a user can come to, that is the one with the lowest
index.

* `Built`: the registries that a user can come to. Their entries are `Ordered`.
* **`find?_eq_some_iff`**: a lookup answers with the lowest index of an entry that is hit.
* `Lowest`: the same for breakpoints at a position (`findCode_eq_some_iff`).
-/

namespace WasmDebugger.Breakpoints

/-- What comes of adding, removing and clearing entries. -/
inductive Built : Breakpoints → Prop where
  | empty : Built {}
  | added {r} (b : Breakpoint) (h : Built r) : Built (r.add b).2
  | removed {r} (index : UInt32) (h : Built r) : Built (r.remove index).2
  | cleared {r} (h : Built r) : Built r.clear

/-! ## The order of entries -/

/-- Indices increase. -/
def Ordered (entries : List (UInt32 × Breakpoint)) : Prop := entries.Pairwise fun a b => a.1 < b.1

variable {entries : List (UInt32 × Breakpoint)} {index : UInt32} {b : Breakpoint}

theorem mem_insertEntry {e : UInt32 × Breakpoint} (h : e ∈ insertEntry index b entries) :
    e = (index, b) ∨ e ∈ entries := by
  induction entries with
  | nil => exact Or.inl (List.mem_singleton.mp h)
  | cons first rest ih =>
    unfold insertEntry at h
    split at h
    · exact List.mem_cons.mp h
    · split at h
      · rcases List.mem_cons.mp h with rfl | h
        · exact Or.inr List.mem_cons_self
        · exact (ih h).imp_right (List.mem_cons_of_mem _)
      · exact Or.inr h

/-- An index that is not taken finds its place. -/
theorem mem_insertEntry_iff {e : UInt32 × Breakpoint} (h : ∀ c, (index, c) ∉ entries) :
    e ∈ insertEntry index b entries ↔ e = (index, b) ∨ e ∈ entries := by
  refine ⟨mem_insertEntry, fun he => ?_⟩
  induction entries with
  | nil => simpa [insertEntry] using he
  | cons first rest ih =>
    unfold insertEntry
    split
    · exact List.mem_cons.mpr he
    · rename_i hnot
      split
      · have hrest : ∀ c, (index, c) ∉ rest := fun c hc => h c (List.mem_cons_of_mem _ hc)
        rcases he with rfl | he
        · exact List.mem_cons_of_mem _ (ih hrest (Or.inl rfl))
        · rcases List.mem_cons.mp he with rfl | he
          · exact List.mem_cons_self
          · exact List.mem_cons_of_mem _ (ih hrest (Or.inr he))
      · rename_i hnot'
        have hsame : index = first.1 :=
          UInt32.le_antisymm (UInt32.not_lt.mp hnot') (UInt32.not_lt.mp hnot)
        exact absurd List.mem_cons_self (hsame ▸ h first.2)

theorem Ordered.insertEntry (h : Ordered entries) : Ordered (insertEntry index b entries) := by
  induction entries with
  | nil => exact List.pairwise_singleton _ _
  | cons first rest ih =>
    obtain ⟨hfirst, hrest⟩ := List.pairwise_cons.mp h
    unfold Breakpoints.insertEntry
    split
    · rename_i hlt
      refine List.pairwise_cons.mpr ⟨fun e he => ?_, h⟩
      rcases List.mem_cons.mp he with rfl | he
      · exact hlt
      · exact UInt32.lt_trans hlt (hfirst e he)
    · split
      · rename_i hlt
        refine List.pairwise_cons.mpr ⟨fun e he => ?_, ih hrest⟩
        rcases mem_insertEntry he with rfl | he
        · exact hlt
        · exact hfirst e he
      · exact h

theorem Built.ordered {r : Breakpoints} (h : r.Built) : Ordered r.entries := by
  induction h with
  | empty => exact .nil
  | added b _ ih => exact ih.insertEntry
  | removed index _ ih => exact ih.filter _
  | cleared _ _ => exact .nil

/-! ## Lookups -/

theorem Ordered.lookup_eq_some_iff (h : Ordered entries) :
    entries.lookup index = some b ↔ (index, b) ∈ entries := by
  induction entries with
  | nil => simp
  | cons first rest ih =>
    obtain ⟨hfirst, hrest⟩ := List.pairwise_cons.mp h
    rw [List.lookup_cons, List.mem_cons]
    by_cases he : index = first.1
    · subst he
      have hnot : (first.1, b) ∉ rest := fun hm => UInt32.lt_irrefl _ (hfirst (first.1, b) hm)
      simp [hnot, Prod.ext_iff, eq_comm]
    · have hbeq : (index == first.1) = false := beq_eq_false_iff_ne.mpr he
      simp only [hbeq, ih hrest, Prod.ext_iff, he, false_and, false_or]

/-- The first entry that is hit is the lowest. -/
theorem Ordered.find?_eq_some_iff (h : Ordered entries) {hit : UInt32 × Breakpoint → Bool}
    {e : UInt32 × Breakpoint} :
    entries.find? hit = some e ↔
      e ∈ entries ∧ hit e = true ∧ ∀ e' ∈ entries, hit e' = true → e.1 ≤ e'.1 := by
  induction entries with
  | nil => simp
  | cons first rest ih =>
    obtain ⟨hfirst, hrest⟩ := List.pairwise_cons.mp h
    rw [List.find?_cons]
    cases hf : hit first with
    | true =>
      simp only [Option.some.injEq]
      constructor
      · rintro rfl
        refine ⟨List.mem_cons_self, hf, fun e' he' _ => ?_⟩
        rcases List.mem_cons.mp he' with rfl | he'
        · exact UInt32.le_refl _
        · exact UInt32.le_of_lt (hfirst e' he')
      · rintro ⟨hm, -, hlowest⟩
        rcases List.mem_cons.mp hm with rfl | hm
        · rfl
        · exact absurd (hlowest first List.mem_cons_self hf)
            (UInt32.not_le.mpr (hfirst e hm))
    | false =>
      simp only [ih hrest]
      constructor
      · rintro ⟨hm, he, hlowest⟩
        refine ⟨List.mem_cons_of_mem _ hm, he, fun e' he' hhit => ?_⟩
        rcases List.mem_cons.mp he' with rfl | he'
        · exact absurd hhit (by simp [hf])
        · exact hlowest e' he' hhit
      · rintro ⟨hm, he, hlowest⟩
        refine ⟨?_, he, fun e' he' => hlowest e' (List.mem_cons_of_mem _ he')⟩
        rcases List.mem_cons.mp hm with rfl | hm
        · exact absurd he (by simp [hf])
        · exact hm

variable {r : Breakpoints}

/-- **A lookup answers with the lowest index** of an entry that is hit. -/
theorem find?_eq_some_iff (hr : r.Built) {hit : Breakpoint → Bool} :
    r.find? hit = some index ↔
      (∃ b, r.get? index = some b ∧ hit b = true) ∧
        ∀ j b, r.get? j = some b → hit b = true → index ≤ j := by
  have ho := hr.ordered
  unfold find? get?
  simp only [Option.map_eq_some_iff, ho.find?_eq_some_iff, ho.lookup_eq_some_iff]
  constructor
  · rintro ⟨⟨i, b⟩, ⟨hm, hb, hlowest⟩, rfl⟩
    exact ⟨⟨b, hm, hb⟩, fun j b' hj hb' => hlowest (j, b') hj hb'⟩
  · rintro ⟨⟨b, hm, hb⟩, hlowest⟩
    exact ⟨(index, b), ⟨hm, hb, fun e he hhit => hlowest e.1 e.2 he hhit⟩, rfl⟩

/-- The lowest index of a breakpoint at a position. -/
def Lowest (r : Breakpoints) (p : Position) (index : UInt32) : Prop :=
  r.get? index = some (.code p) ∧ ∀ j, r.get? j = some (.code p) → index ≤ j

theorem findCode_eq_some_iff (hr : r.Built) {p : Position} :
    r.findCode p = some index ↔ r.Lowest p index := by
  unfold findCode
  rw [find?_eq_some_iff hr]
  constructor
  · rintro ⟨⟨b, hb, hhit⟩, hlowest⟩
    cases b with
    | code q =>
      have : q = p := by simpa using hhit
      subst this
      exact ⟨hb, fun j hj => hlowest j _ hj (by simp)⟩
    | memory _ _ _ | global _ _ => exact absurd hhit (by simp)
  · rintro ⟨hb, hlowest⟩
    refine ⟨⟨_, hb, by simp⟩, fun j b hj hhit => ?_⟩
    cases b with
    | code q =>
      have : q = p := by simpa using hhit
      subst this
      exact hlowest j hj
    | memory _ _ _ | global _ _ => exact absurd hhit (by simp)

theorem findCode_eq_none_iff (hr : r.Built) {p : Position} :
    r.findCode p = none ↔ ∀ index, ¬ r.Lowest p index := by
  simp only [Option.eq_none_iff_forall_ne_some, ne_eq, findCode_eq_some_iff hr]

end WasmDebugger.Breakpoints
