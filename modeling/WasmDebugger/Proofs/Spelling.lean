import WasmDebugger.Proofs.Locality

/-!
# Spellings of data

Text stands behind its length and a row of items behind its count. The readers of both give what
is spelled and nothing else, so a reader made of such readers does too.

* `SpellsText`, `SpellsVector`: which bytes spell a text or a row of items.
* `Decoder.Inverts`: a reader gives exactly what the bytes it takes spell. It is closed under the
  ways to compose readers.
* **`Decoder.Inverts.vector`**: a row is read from its spellings, whatever its items are.
-/

namespace WasmDebugger

/-- Text behind its length. -/
def SpellsText (bytes : List UInt8) (text : String) : Prop :=
  ∃ size content, bytes = size ++ content ∧ IntType.u32.Spells size content.length ∧
    text = Octets.ofBytes content

/-- A count, and so many items one behind the other. -/
def SpellsVector {α : Type} (Spelled : List UInt8 → α → Prop) (bytes : List UInt8)
    (items : List α) : Prop :=
  ∃ count pieces, bytes = count ++ pieces.flatten ∧ IntType.u32.Spells count items.length ∧
    List.Forall₂ Spelled pieces items

/-- A number below 128 is its own spelling. -/
theorem spells_one {b : UInt8} (h : b.toNat < 128) : IntType.u32.Spells [b] b.toNat where
  marked := h
  length := by
    show 1 ≤ IntType.u32.maxGroups
    decide
  value := congrArg Nat.cast (Groups.word_singleton.trans (Nat.mod_eq_of_lt h))
  least := Int.natCast_nonneg _
  bound := by
    show (b.toNat : Int) < (2 ^ 32 : Nat)
    omega

namespace Decoder

variable {α β : Type} {d : Decoder α} {Spelled : List UInt8 → α → Prop} {c c' : Cursor}
  {bytes : List UInt8} {items : List α} {pieces : List (List UInt8)} {a : α} {text : String}

theorem name_eq_ok_iff :
    name c = .ok (text, c') ↔ ∃ bytes, c.Passed bytes c' ∧ SpellsText bytes text := by
  unfold name
  simp only [bind_eq_ok_iff, pure_eq_ok_iff, count_eq_ok_iff, bytes_eq_ok_iff]
  constructor
  · rintro ⟨n, middle, ⟨-, size, hpass, hsize⟩, content, _, ⟨hcontent, rfl⟩, rfl, rfl⟩
    exact ⟨size ++ content, hpass.trans hcontent, size, content, rfl, hsize, rfl⟩
  · rintro ⟨_, hpass, size, content, rfl, hsize, rfl⟩
    obtain ⟨offset, rest, rfl, rfl⟩ := hpass.cases
    have hlength : content.length ≤ (content ++ rest).length := by simp
    have hoffset : offset + (size ++ content).length = offset + size.length + content.length := by
      rw [List.length_append, Nat.add_assoc]
    exact ⟨content.length, ⟨offset + size.length, content ++ rest⟩,
      ⟨hlength, size, ⟨List.append_assoc .., rfl⟩, hsize⟩, content, _, ⟨⟨rfl, hoffset⟩, rfl⟩,
      rfl, rfl⟩

/-- The decoder gives values from their spellings. -/
def Inverts {α : Type} (d : Decoder α) (Spelled : List UInt8 → α → Prop) : Prop :=
  ∀ c c' a, d c = .ok (a, c') ↔ ∃ bytes, c.Passed bytes c' ∧ Spelled bytes a

theorem Inverts.takes (h : Inverts d Spelled) (hs : Spelled bytes a) : Takes d bytes a :=
  fun _ _ => (h ..).mpr ⟨bytes, ⟨rfl, rfl⟩, hs⟩

theorem inverts_u32 : Inverts u32 fun bytes n => IntType.u32.Spells bytes n.toNat :=
  fun _ _ _ => u32_eq_ok_iff

theorem inverts_name : Inverts name SpellsText := fun _ _ _ => name_eq_ok_iff

/-- Two values one behind the other make one. -/
theorem Inverts.pair {γ : Type} {d' : Decoder β} {Spelled' : List UInt8 → β → Prop}
    (h : Inverts d Spelled) (h' : Inverts d' Spelled') (f : α → β → γ) :
    Inverts (d >>= fun a => d' >>= fun b => pure (f a b)) fun bytes x =>
      ∃ a b front back, bytes = front ++ back ∧ Spelled front a ∧ Spelled' back b ∧ f a b = x := by
  intro c c' x
  simp only [bind_eq_ok_iff, pure_eq_ok_iff, h c, h' _]
  constructor
  · rintro ⟨a, middle, ⟨front, hfront, ha⟩, b, _, ⟨back, hback, hb⟩, rfl, rfl⟩
    exact ⟨front ++ back, hfront.trans hback, a, b, front, back, rfl, ha, hb, rfl⟩
  · rintro ⟨_, hpass, a, b, front, back, rfl, ha, hb, rfl⟩
    obtain ⟨offset, rest, rfl, rfl⟩ := hpass.cases
    refine ⟨a, ⟨offset + front.length, back ++ rest⟩,
      ⟨front, ⟨List.append_assoc .., rfl⟩, ha⟩, b, _, ⟨back, ⟨rfl, ?_⟩, hb⟩, rfl, rfl⟩
    rw [List.length_append, Nat.add_assoc]

theorem Inverts.congr {Spelled' : List UInt8 → α → Prop} (h : Inverts d Spelled)
    (hs : ∀ bytes a, Spelled bytes a ↔ Spelled' bytes a) : Inverts d Spelled' := by
  intro c c' a
  simp only [h c, hs]

theorem Inverts.map (h : Inverts d Spelled) (f : α → β) :
    Inverts (d >>= fun a => pure (f a)) fun bytes b => ∃ a, Spelled bytes a ∧ f a = b := by
  intro c c' b
  simp only [bind_eq_ok_iff, pure_eq_ok_iff, h c]
  constructor
  · rintro ⟨a, _, ⟨bytes, hpass, ha⟩, rfl, rfl⟩
    exact ⟨bytes, hpass, a, ha, rfl⟩
  · rintro ⟨bytes, hpass, a, ha, rfl⟩
    exact ⟨a, c', ⟨bytes, hpass, ha⟩, rfl, rfl⟩

/-- Items one behind the other. -/
theorem Inverts.times (h : Inverts d Spelled) (n : Nat) : Inverts (times d n) fun bytes items =>
    items.length = n ∧ ∃ pieces, bytes = pieces.flatten ∧ List.Forall₂ Spelled pieces items := by
  induction n with
  | zero =>
    intro c c' items
    refine pure_eq_ok_iff.trans ⟨?_, ?_⟩
    · rintro ⟨rfl, rfl⟩
      exact ⟨[], Cursor.passed_nil, rfl, [], rfl, .nil⟩
    · rintro ⟨_, hpass, hlength, pieces, rfl, hpieces⟩
      obtain rfl := List.eq_nil_of_length_eq_zero hlength
      cases hpieces
      obtain ⟨offset, rest, rfl, rfl⟩ := hpass.cases
      exact ⟨rfl, rfl⟩
  | succ n ih =>
    refine (h.pair ih List.cons).congr fun bytes items => ⟨?_, ?_⟩
    · rintro ⟨a, rest, front, _, rfl, ha, ⟨rfl, pieces, rfl, hpieces⟩, rfl⟩
      exact ⟨rfl, front :: pieces, rfl, .cons ha hpieces⟩
    · rintro ⟨hlength, _, rfl, hpieces⟩
      cases hpieces with
      | nil => exact absurd hlength (by simp)
      | cons ha hpieces =>
        exact ⟨_, _, _, _, rfl, ha, ⟨Nat.succ.inj hlength, _, rfl, hpieces⟩, rfl⟩

/-- Every item takes a byte, so there are at least as many bytes as items. -/
theorem length_le_flatten (hne : ∀ bytes a, Spelled bytes a → bytes ≠ [])
    (h : List.Forall₂ Spelled pieces items) : items.length ≤ pieces.flatten.length := by
  induction h with
  | nil => exact Nat.le_refl 0
  | cons ha _ ih =>
    have hpos := List.length_pos_iff.mpr (hne _ _ ha)
    rw [List.length_cons, List.flatten_cons, List.length_append]
    omega

/-- **A row of items is read from its spellings**: the check of the count turns none away. -/
theorem Inverts.vector (h : Inverts d Spelled) (hne : ∀ bytes a, Spelled bytes a → bytes ≠ []) :
    Inverts (vector d) (SpellsVector Spelled) := by
  intro c c' items
  unfold Decoder.vector
  simp only [bind_eq_ok_iff, count_eq_ok_iff, h.times _ _]
  constructor
  · rintro ⟨_, middle, ⟨-, count, hpass, hcount⟩, _, hrest, rfl, pieces, rfl, hpieces⟩
    exact ⟨count ++ pieces.flatten, hpass.trans hrest, count, pieces, rfl, hcount, hpieces⟩
  · rintro ⟨_, hpass, count, pieces, rfl, hcount, hpieces⟩
    obtain ⟨offset, rest, rfl, rfl⟩ := hpass.cases
    -- a count is turned away only if fewer bytes are left than there are items
    have hlength : items.length ≤ (pieces.flatten ++ rest).length := by
      rw [List.length_append]
      exact (length_le_flatten hne hpieces).trans (Nat.le_add_right _ _)
    refine ⟨items.length, ⟨offset + count.length, pieces.flatten ++ rest⟩,
      ⟨hlength, count, ⟨List.append_assoc .., rfl⟩, hcount⟩, pieces.flatten, ⟨rfl, ?_⟩, rfl,
      pieces, rfl, hpieces⟩
    rw [List.length_append, Nat.add_assoc]

/-- A window that is used up is one spelling. -/
theorem Inverts.window_iff (h : Inverts d Spelled) {offset offset' : Nat} :
    d ⟨offset, bytes⟩ = .ok (a, ⟨offset', []⟩) ↔
      offset' = offset + bytes.length ∧ Spelled bytes a := by
  rw [h]
  constructor
  · rintro ⟨passed, hpass, hs⟩
    obtain ⟨rfl, hend⟩ := hpass.eq_of_rest rfl
    exact ⟨congrArg Cursor.offset hend, hs⟩
  · rintro ⟨rfl, hs⟩
    exact ⟨bytes, ⟨(List.append_nil bytes).symm, rfl⟩, hs⟩

end Decoder

end WasmDebugger
