import WasmDebugger.OperandStack

/-!
# What stack operations leave alone

An instruction may only touch operands above the floor. `Shift s t` says that of a stack before
and after: the values up to the floor are kept, and the limit is not newly exceeded.

* `restore_pop`, `restoreAll_pop`: putting back what was taken off gives the old stack.
* `Offers`: operands that an instruction finds above the floor.
* `shift_pop`, `shift_replace`, `shift_push?`, `shift_cut`: the operations that instructions use
  are shifts.
-/

namespace WasmDebugger.OperandStack

variable {s t : OperandStack}

/-- Values, floor and limit make up a stack. -/
theorem eq_of_values (hv : s.values = t.values) (hf : s.floor = t.floor)
    (hl : s.limit = t.limit) : s = t := by
  obtain ⟨values, size, floor, limit, hs⟩ := s
  obtain ⟨values', size', floor', limit', ht⟩ := t
  simp only at hv hf hl
  subst hv hf hl
  have : size = size' := hs.trans ht.symm
  subst this
  rfl

/-! ## Single operations -/

@[simp] theorem values_pop (n : Nat) : (s.pop n).values = s.values.drop n := rfl
@[simp] theorem size_pop (n : Nat) : (s.pop n).size = s.size - n := rfl
@[simp] theorem floor_pop (n : Nat) : (s.pop n).floor = s.floor := rfl
@[simp] theorem limit_pop (n : Nat) : (s.pop n).limit = s.limit := rfl

@[simp] theorem values_restore (v : Value) : (s.restore v).values = v :: s.values := rfl
@[simp] theorem size_restore (v : Value) : (s.restore v).size = s.size + 1 := rfl
@[simp] theorem floor_restore (v : Value) : (s.restore v).floor = s.floor := rfl
@[simp] theorem limit_restore (v : Value) : (s.restore v).limit = s.limit := rfl

@[simp] theorem values_setFloor (n : Nat) : (s.setFloor n).values = s.values := rfl
@[simp] theorem size_setFloor (n : Nat) : (s.setFloor n).size = s.size := rfl
@[simp] theorem floor_setFloor (n : Nat) : (s.setFloor n).floor = n := rfl
@[simp] theorem limit_setFloor (n : Nat) : (s.setFloor n).limit = s.limit := rfl

theorem available_le : s.available ≤ s.size := Nat.sub_le _ _

theorem restoreAll_cons (v : Value) (vs : List Value) :
    s.restoreAll (v :: vs) = (s.restore v).restoreAll vs := rfl

@[simp] theorem values_restoreAll (vs : List Value) :
    (s.restoreAll vs).values = vs.reverse ++ s.values := by
  induction vs generalizing s with
  | nil => rfl
  | cons v vs ih => rw [restoreAll_cons, ih, values_restore]; simp

@[simp] theorem floor_restoreAll (vs : List Value) : (s.restoreAll vs).floor = s.floor := by
  induction vs generalizing s with
  | nil => rfl
  | cons v vs ih => rw [restoreAll_cons, ih, floor_restore]

@[simp] theorem limit_restoreAll (vs : List Value) : (s.restoreAll vs).limit = s.limit := by
  induction vs generalizing s with
  | nil => rfl
  | cons v vs ih => rw [restoreAll_cons, ih, limit_restore]

@[simp] theorem size_restoreAll (vs : List Value) :
    (s.restoreAll vs).size = s.size + vs.length := by
  rw [size_eq, values_restoreAll, List.length_append, List.length_reverse, s.size_eq]
  omega

/-! ## Looking at operands -/

theorem peek?_eq_some {depth : Nat} {v : Value} :
    s.peek? depth = some v ↔ depth < s.available ∧ s.values[depth]? = some v := by
  unfold peek?
  split <;> simp [*]

/-- **Operands lie above the floor**, the last one uppermost, and `rest` under them. -/
structure Offers (s : OperandStack) (vs rest : List Value) : Prop where
  values : s.values = vs.reverse ++ rest
  above : vs.length ≤ s.available

theorem Offers.peek? {vs rest : List Value} {x : Value} (h : s.Offers vs rest) (depth : Nat)
    (hx : vs.reverse[depth]? = some x) : s.peek? depth = some x := by
  obtain ⟨hd, -⟩ := List.getElem?_eq_some_iff.mp hx
  rw [peek?_eq_some, h.values, List.getElem?_append_left hd]
  have := h.above
  rw [List.length_reverse] at hd
  exact ⟨by omega, hx⟩

theorem Offers.drop {vs rest : List Value} (h : s.Offers vs rest) :
    s.values.drop vs.length = rest := by
  rw [h.values, ← List.length_reverse, List.drop_left]

theorem offers_one {x : Value} (hx : s.peek? 0 = some x) : ∃ rest, s.Offers [x] rest := by
  obtain ⟨ha, hx⟩ := peek?_eq_some.mp hx
  cases hs : s.values with
  | nil => exact absurd (hs ▸ hx) (by simp)
  | cons x' rest =>
    rw [hs] at hx
    cases hx
    exact ⟨rest, hs, ha⟩

theorem offers_two {x y : Value} (hx : s.peek? 1 = some x) (hy : s.peek? 0 = some y) :
    ∃ rest, s.Offers [x, y] rest := by
  obtain ⟨ha, hx⟩ := peek?_eq_some.mp hx
  obtain ⟨rest, hv, -⟩ := offers_one hy
  rw [hv] at hx
  cases rest with
  | nil => exact absurd hx (by simp)
  | cons x' rest =>
    cases hx
    exact ⟨rest, hv, ha⟩

/-- The operands that suit some types lie on top, the last one uppermost. -/
theorem values_of_typed? {types : List ValueType} {operands : List Value}
    (h : s.typed? types = some operands) :
    types.length ≤ s.available ∧ operands.map Value.type = types ∧
      s.values = operands.reverse ++ s.values.drop types.length := by
  unfold typed? at h
  split at h
  · exact absurd h (by simp)
  · rename_i hn
    simp only at h
    split at h
    · rename_i ht
      cases h
      exact ⟨Nat.le_of_not_lt hn, ht, by rw [List.reverse_reverse, List.take_append_drop]⟩
    · exact absurd h (by simp)

/-- Operands above the floor suit their types. -/
theorem typed?_of_values {types : List ValueType} {operands rest : List Value}
    (hv : s.values = operands.reverse ++ rest) (ht : operands.map Value.type = types)
    (ha : operands.length ≤ s.available) : s.typed? types = some operands := by
  have hlength : types.length = operands.length := by rw [← ht, List.length_map]
  have htake : (s.values.take types.length).reverse = operands := by
    rw [hv, hlength, ← List.length_reverse, List.take_left, List.reverse_reverse]
  unfold typed?
  rw [if_neg (by omega)]
  simp only [htake, ht, if_true]

theorem length_of_typed? {types : List ValueType} {operands : List Value}
    (h : s.typed? types = some operands) : operands.length = types.length := by
  rw [← (values_of_typed? h).2.1, List.length_map]

/-- An operand put back where it was. -/
theorem restore_pop {v : Value} (h : s.peek? 0 = some v) : (s.pop 1).restore v = s := by
  obtain ⟨-, hv⟩ := peek?_eq_some.mp h
  refine eq_of_values ?_ rfl rfl
  cases hs : s.values with
  | nil => rw [hs] at hv; exact absurd hv (by simp)
  | cons w rest =>
    rw [hs] at hv
    have : w = v := by simpa using hv
    simp [hs, this]

/-- Arguments put back where they were. -/
theorem restoreAll_pop {types : List ValueType} {operands : List Value}
    (h : s.typed? types = some operands) : (s.pop operands.length).restoreAll operands = s := by
  have hv := (values_of_typed? h).2.2
  refine eq_of_values ?_ (by simp) (by simp)
  rw [values_restoreAll, values_pop, length_of_typed? h]
  exact hv.symm

/-! ## Changes above the floor -/

/-- The values up to the floor. -/
def below (s : OperandStack) : List Value := s.values.drop s.available

/-- Only operands above the floor have changed, and the stack has not outgrown its limit. -/
structure Shift (s t : OperandStack) : Prop where
  floor : t.floor = s.floor
  limit : t.limit = s.limit
  kept : s.below <:+ t.values
  bounded : t.size ≤ max s.size s.limit

theorem Shift.refl (s : OperandStack) : Shift s s :=
  ⟨rfl, rfl, List.drop_suffix _ _, Nat.le_max_left _ _⟩

theorem length_below : s.below.length = min s.size s.floor := by
  unfold below available
  rw [List.length_drop, ← s.size_eq]
  omega

theorem Shift.trans {u : OperandStack} (h : Shift s t) (h' : Shift t u) : Shift s u := by
  refine ⟨h'.floor.trans h.floor, h'.limit.trans h.limit, ?_, ?_⟩
  · refine List.IsSuffix.trans ?_ h'.kept
    refine List.suffix_of_suffix_length_le h.kept (List.drop_suffix _ _) ?_
    have hlen := h.kept.length_le
    rw [← t.size_eq] at hlen
    have hf := h.floor
    rw [length_below, length_below] at *
    omega
  · have h1 := h.bounded
    have h2 := h'.bounded
    rw [h.limit] at h2
    omega

theorem below_suffix_drop {n : Nat} (h : n ≤ s.available) : s.below <:+ s.values.drop n := by
  have : s.values.drop s.available = (s.values.drop n).drop (s.available - n) := by
    rw [List.drop_drop]
    congr 1
    omega
  unfold below
  rw [this]
  exact List.drop_suffix _ _

theorem shift_pop {n : Nat} (h : n ≤ s.available) : Shift s (s.pop n) :=
  ⟨rfl, rfl, below_suffix_drop h, by simp only [size_pop]; omega⟩

theorem shift_replace {n : Nat} (v : Value) (hn : 0 < n) (h : n ≤ s.available) :
    Shift s (s.replace n v) := by
  refine ⟨rfl, rfl, ?_, ?_⟩
  · exact (below_suffix_drop h).trans (List.suffix_cons v _)
  · have := available_le (s := s)
    simp only [replace, size_restore, size_pop]
    omega

theorem shift_push? {v : Value} (h : s.push? v = some t) : Shift s t := by
  unfold push? at h
  split at h
  · rename_i hl
    cases h
    refine ⟨rfl, rfl, (List.drop_suffix _ _).trans (List.suffix_cons v _), ?_⟩
    simp only [size_restore]
    omega
  · exact absurd h (by simp)

/-- Values carried over a cut at a height above the floor. -/
theorem shift_cut {height : Nat} {vs : List Value} (hf : s.floor ≤ height)
    (hs : height + vs.length ≤ s.size) : Shift s ((s.truncate height).restoreAll vs) := by
  have hn : s.size - height ≤ s.available := by unfold available; omega
  refine ⟨by simp [truncate], by simp [truncate], ?_, ?_⟩
  · rw [values_restoreAll]
    exact (below_suffix_drop hn).trans (List.suffix_append _ _)
  · simp only [size_restoreAll, truncate, size_pop]
    omega

theorem Shift.floor_le_size (h : Shift s t) (hs : s.floor ≤ s.size) : t.floor ≤ t.size := by
  have hk := h.kept.length_le
  rw [length_below, ← t.size_eq] at hk
  rw [h.floor]
  omega

/-- What lies under the floor outlasts a shift. -/
theorem Shift.suffix (h : Shift s t) {rest : List Value} (hr : rest <:+ s.values)
    (hl : rest.length ≤ s.floor) (hf : s.floor ≤ s.size) : rest <:+ t.values := by
  refine List.IsSuffix.trans ?_ h.kept
  refine List.suffix_of_suffix_length_le hr (List.drop_suffix _ _) ?_
  rw [length_below]
  omega

/-- Cutting back to a height leaves what lay below it. -/
theorem values_truncate {rest : List Value} (hr : rest <:+ s.values) :
    (s.truncate rest.length).values = rest := by
  obtain ⟨front, hfront⟩ := hr
  have hlen : s.size = front.length + rest.length := by rw [s.size_eq, ← hfront, List.length_append]
  unfold truncate
  rw [values_pop, ← hfront, hlen, Nat.add_sub_cancel]
  exact List.drop_left

end WasmDebugger.OperandStack
