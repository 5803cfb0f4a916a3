import Mathlib.Tactic.Ring
import WasmDebugger.Binary.Reader
import WasmDebugger.Proofs.RoundTrip

/-!
# Integers of variable length

An integer stands in the bytes in groups of seven bits, the low groups first, and every byte but
the last has its top bit set. One integer has many spellings: more groups than needed do no harm,
as long as they repeat the sign.

* `Groups.Marked`, `Groups.word`, `Groups.signedWord`: how many bytes belong to a spelling, and the
  number that it spells.
* `IntType.Spells`: a spelling of a number that its type holds, in no more groups than it may have.
* `Decoder.u32_eq_ok_iff`, `Decoder.s32_eq_ok_iff`, `Decoder.s64_eq_ok_iff`: a decoder gives a
  number exactly from its spellings.
* **`integers_read_exactly`**: the same of a reader at any position and limit, for the shortest
  spelling, for the longer ones, and for last groups with bits that belong to no number.
-/

namespace WasmDebugger

/-! ## Groups -/

namespace Groups

/-- Every byte but the last has its top bit set. -/
def Marked : List UInt8 → Prop
  | [] => False
  | [last] => last.toNat < 128
  | b :: rest => 128 ≤ b.toNat ∧ Marked rest

/-- The groups behind one another, the low ones first. -/
def word : List UInt8 → Nat
  | [] => 0
  | b :: rest => b.toNat % 128 + 128 * word rest

/-- Bit 6 of the last group. -/
def isNegative (bytes : List UInt8) : Bool := (bytes.getLastD 0).toNat.testBit 6

/-- The groups with the sign that the last of them has, extended to the left without end. -/
def signedWord (bytes : List UInt8) : Int :=
  if isNegative bytes then (word bytes : Int) - (128 ^ bytes.length : Nat) else word bytes

/-- One group more, which repeats the sign. -/
def pad (isSigned : Bool) : List UInt8 → List UInt8
  | [] => []
  | [last] => [last + 128, if isSigned && isNegative [last] then 0x7F else 0]
  | b :: rest => b :: pad isSigned rest

variable {b : UInt8} {bytes other rest rest' : List UInt8}

theorem Marked.ne_nil (h : Marked bytes) : bytes ≠ [] := by
  rintro rfl
  exact h

theorem Marked.length_pos (h : Marked bytes) : 0 < bytes.length :=
  List.length_pos_iff.mpr h.ne_nil

theorem marked_cons_iff :
    Marked (b :: rest) ↔ b.toNat < 128 ∧ rest = [] ∨ 128 ≤ b.toNat ∧ Marked rest := by
  cases rest with
  | nil => simp [Marked]
  | cons _ _ => simp [Marked]

/-- Where a spelling ends is seen from its bytes. -/
theorem Marked.eq_of_append (h : Marked bytes) (h' : Marked other)
    (he : bytes ++ rest = other ++ rest') : bytes = other := by
  induction bytes generalizing other with
  | nil => exact absurd rfl h.ne_nil
  | cons b more ih =>
    cases other with
    | nil => exact absurd rfl h'.ne_nil
    | cons b' more' =>
      obtain ⟨rfl, htail⟩ := List.cons.inj he
      rcases marked_cons_iff.mp h with ⟨hb, rfl⟩ | ⟨hb, hm⟩ <;>
        rcases marked_cons_iff.mp h' with ⟨hb', rfl⟩ | ⟨hb', hm'⟩
      · rfl
      · omega
      · omega
      · rw [ih hm hm' htail]

theorem Marked.last_lt (h : Marked (bytes ++ [b])) : b.toNat < 128 := by
  induction bytes with
  | nil => exact h
  | cons _ more ih =>
    exact ih ((marked_cons_iff.mp h).resolve_left fun h => by simp at h).2

theorem word_singleton : word [b] = b.toNat % 128 := Nat.add_zero _

theorem isNegative_singleton : isNegative [b] = decide (64 ≤ b.toNat % 128) := by
  have hbit : b.toNat.testBit 6 = decide (b.toNat / 64 % 2 = 1) := Nat.testBit_eq_decide_div_mod_eq
  show b.toNat.testBit 6 = _
  rw [hbit, decide_eq_decide]
  omega

theorem isNegative_cons (h : rest ≠ []) : isNegative (b :: rest) = isNegative rest := by
  cases rest with
  | nil => exact absurd rfl h
  | cons _ _ => rfl

theorem signedWord_singleton :
    signedWord [b] = (b.toNat % 128 : Nat) - (if 64 ≤ b.toNat % 128 then 128 else 0) := by
  unfold signedWord
  rw [isNegative_singleton]
  by_cases h : 64 ≤ b.toNat % 128 <;> simp [h, word]

theorem signedWord_cons (h : rest ≠ []) :
    signedWord (b :: rest) = (b.toNat % 128 : Nat) + 128 * signedWord rest := by
  unfold signedWord
  rw [isNegative_cons h, word, List.length_cons, Nat.pow_succ]
  split <;> omega

/-! ### The shortest spelling -/

theorem marked_unsigned (n : Nat) : Marked (Encode.unsigned n) := by
  induction n using Encode.unsigned.induct with
  | case1 n h =>
    rw [Encode.unsigned, if_pos h]
    show n.toUInt8.toNat < 128
    rwa [Decoder.toNat_toUInt8 (by omega)]
  | case2 n h ih =>
    rw [Encode.unsigned, if_neg h]
    refine marked_cons_iff.mpr (Or.inr ⟨?_, ih⟩)
    rw [Decoder.toNat_toUInt8 (by omega)]
    omega

theorem word_unsigned (n : Nat) : word (Encode.unsigned n) = n := by
  induction n using Encode.unsigned.induct with
  | case1 n h =>
    rw [Encode.unsigned, if_pos h]
    simp only [word, Decoder.toNat_toUInt8 (show n < 256 by omega)]
    omega
  | case2 n h ih =>
    rw [Encode.unsigned, if_neg h, word, ih, Decoder.toNat_toUInt8 (by omega)]
    omega

/-- **No spelling of a number is shorter.** -/
theorem length_unsigned_le (h : Marked other) :
    (Encode.unsigned (word other)).length ≤ other.length := by
  induction other with
  | nil => exact absurd rfl h.ne_nil
  | cons b rest ih =>
    rw [Encode.unsigned]
    split
    · simp
    · rename_i hlarge
      rw [word] at hlarge ⊢
      rcases marked_cons_iff.mp h with ⟨hb, rfl⟩ | ⟨hb, hm⟩
      · simp only [word] at hlarge
        omega
      · rw [show (b.toNat % 128 + 128 * word rest) / 128 = word rest by omega]
        exact Nat.succ_le_succ (ih hm)

theorem marked_signed (i : Int) : Marked (Encode.signed i) := by
  induction i using Encode.signed.induct with
  | case1 i h =>
    rw [Encode.signed, if_pos h]
    show (i % 128).toNat.toUInt8.toNat < 128
    rw [Decoder.toNat_toUInt8 (by omega)]
    omega
  | case2 i h ih =>
    rw [Encode.signed, if_neg h]
    refine marked_cons_iff.mpr (Or.inr ⟨?_, ih⟩)
    rw [Decoder.toNat_toUInt8 (by omega)]
    omega

theorem signedWord_signed (i : Int) : signedWord (Encode.signed i) = i := by
  induction i using Encode.signed.induct with
  | case1 i h =>
    rw [Encode.signed, if_pos h, signedWord_singleton, Decoder.toNat_toUInt8 (by omega)]
    split <;> omega
  | case2 i h ih =>
    rw [Encode.signed, if_neg h, signedWord_cons (marked_signed _).ne_nil, ih,
      Decoder.toNat_toUInt8 (by omega)]
    omega

/-- **No spelling of a signed number is shorter.** -/
theorem length_signed_le (h : Marked other) :
    (Encode.signed (signedWord other)).length ≤ other.length := by
  induction other with
  | nil => exact absurd rfl h.ne_nil
  | cons b rest ih =>
    rw [Encode.signed]
    split
    · simp
    · rename_i hlarge
      rcases marked_cons_iff.mp h with ⟨hb, rfl⟩ | ⟨hb, hm⟩
      · rw [signedWord_singleton] at hlarge
        split at hlarge <;> omega
      · rw [signedWord_cons hm.ne_nil,
          show ((b.toNat % 128 : Nat) + 128 * signedWord rest) / 128 = signedWord rest by omega]
        exact Nat.succ_le_succ (ih hm)

theorem length_signed {more : Nat} {i : Int} (hlow : -(64 * 128 ^ more : Nat) ≤ i)
    (hhigh : i < (64 * 128 ^ more : Nat)) : (Encode.signed i).length ≤ more + 1 := by
  induction more generalizing i with
  | zero =>
    rw [Encode.signed, if_pos (by omega)]
    simp
  | succ more ih =>
    rw [Encode.signed]
    split
    · simp
    · have := ih (i := i / 128) (by rw [Nat.pow_succ] at hlow; omega)
        (by rw [Nat.pow_succ] at hhigh; omega)
      rw [List.length_cons]
      omega

/-! ### Longer spellings -/

theorem length_pad (isSigned : Bool) (h : bytes ≠ []) :
    (pad isSigned bytes).length = bytes.length + 1 := by
  fun_induction pad isSigned bytes with
  | case1 => exact absurd rfl h
  | case2 => rfl
  | case3 b rest hne ih => simp [ih hne]

theorem toNat_setMark (h : b.toNat < 128) : (b + 128).toNat = b.toNat + 128 := by
  rw [UInt8.toNat_add]
  show (b.toNat + 128) % 256 = _
  omega

theorem marked_pad (isSigned : Bool) (h : Marked bytes) : Marked (pad isSigned bytes) := by
  fun_induction pad isSigned bytes with
  | case1 => exact h
  | case2 last =>
    have hlast : last.toNat < 128 := h
    refine ⟨by rw [toNat_setMark hlast]; omega, ?_⟩
    show UInt8.toNat (if _ then _ else _) < 128
    split <;> decide
  | case3 b rest hne ih =>
    obtain ⟨hb, hm⟩ := (marked_cons_iff.mp h).resolve_left fun h => hne h.2
    exact marked_cons_iff.mpr (Or.inr ⟨hb, ih hm⟩)

theorem word_pad (h : Marked bytes) : word (pad false bytes) = word bytes := by
  fun_induction pad false bytes with
  | case1 => rfl
  | case2 last =>
    have hlast : last.toNat < 128 := h
    simp [word, toNat_setMark hlast]
  | case3 b rest hne ih =>
    obtain ⟨-, hm⟩ := (marked_cons_iff.mp h).resolve_left fun h => hne h.2
    rw [word, word, ih hm]

theorem signedWord_pad (h : Marked bytes) : signedWord (pad true bytes) = signedWord bytes := by
  fun_induction pad true bytes with
  | case1 => rfl
  | case2 last =>
    have hlast : last.toNat < 128 := h
    rw [signedWord_cons (by simp), toNat_setMark hlast, signedWord_singleton, signedWord_singleton,
      isNegative_singleton]
    by_cases hs : 64 ≤ last.toNat % 128 <;> simp [hs]
    omega
  | case3 b rest hne ih =>
    obtain ⟨-, hm⟩ := (marked_cons_iff.mp h).resolve_left fun h => hne h.2
    rw [signedWord_cons (marked_pad true hm).ne_nil, signedWord_cons hne, ih hm]

end Groups

/-! ## Types of integers -/

/-- Integers of so many bits, and the most groups that one of them is spelled in. -/
structure IntType where
  bits : Nat
  isSigned : Bool
  maxGroups : Nat

namespace IntType

def u32 : IntType := ⟨32, false, 5⟩
def s32 : IntType := ⟨32, true, 5⟩
def s64 : IntType := ⟨64, true, 10⟩

/-- The least number of the type. -/
def least (t : IntType) : Int := if t.isSigned then -(2 ^ (t.bits - 1) : Nat) else 0

/-- The first number above those of the type. -/
def bound (t : IntType) : Int := if t.isSigned then (2 ^ (t.bits - 1) : Nat) else (2 ^ t.bits : Nat)

/-- The number that the groups spell. -/
def value (t : IntType) (bytes : List UInt8) : Int :=
  if t.isSigned then Groups.signedWord bytes else Groups.word bytes

/-- **A spelling** of a number of the type. -/
structure Spells (t : IntType) (bytes : List UInt8) (v : Int) : Prop where
  marked : Groups.Marked bytes
  length : bytes.length ≤ t.maxGroups
  value : t.value bytes = v
  least : t.least ≤ v
  bound : v < t.bound

/-- The standard encoding. -/
def encode (t : IntType) (v : Int) : List UInt8 :=
  if t.isSigned then Encode.signed v else Encode.unsigned v.toNat

/-- In a spelling of all groups, the bits of the last one that lie above the number repeat its
sign. Without a sign they are zero. -/
def Extended (t : IntType) (last : UInt8) : Prop :=
  let used := t.bits - 7 * (t.maxGroups - 1)
  ∀ i < 7, used ≤ i → last.toNat.testBit i = (t.isSigned && last.toNat.testBit (used - 1))

end IntType

/-! ## Decoders -/

/-- From one cursor to the other there are these bytes. -/
def Cursor.Passed (c : Cursor) (bytes : List UInt8) (c' : Cursor) : Prop :=
  c.rest = bytes ++ c'.rest ∧ c'.offset = c.offset + bytes.length

namespace Decoder

open Groups

variable {c c' : Cursor} {offset : Nat} {b : UInt8} {rest : List UInt8}

/-- A spelling in front of some bytes is the first of them, or that one and a spelling behind it. -/
theorem exists_marked_cons {P : List UInt8 → Prop} :
    (∃ bytes, Cursor.Passed ⟨offset, b :: rest⟩ bytes c' ∧ Marked bytes ∧ P bytes) ↔
      b.toNat < 128 ∧ c' = ⟨offset + 1, rest⟩ ∧ P [b] ∨
      128 ≤ b.toNat ∧ ∃ more, Cursor.Passed ⟨offset + 1, rest⟩ more c' ∧ Marked more ∧
        P (b :: more) := by
  constructor
  · rintro ⟨bytes, ⟨hrest, hoffset⟩, hm, hp⟩
    cases bytes with
    | nil => exact absurd rfl hm.ne_nil
    | cons b' more =>
      obtain ⟨rfl, htail⟩ := List.cons.inj hrest
      rcases marked_cons_iff.mp hm with ⟨hb, rfl⟩ | ⟨hb, hm⟩
      · obtain ⟨offset', rest'⟩ := c'
        exact Or.inl ⟨hb, congrArg₂ Cursor.mk hoffset htail.symm, hp⟩
      · refine Or.inr ⟨hb, more, ⟨htail, ?_⟩, hm, hp⟩
        rw [List.length_cons] at hoffset
        simp only at hoffset ⊢
        omega
  · rintro (⟨hb, rfl, hp⟩ | ⟨hb, more, ⟨hrest, hoffset⟩, hm, hp⟩)
    · exact ⟨[b], ⟨rfl, rfl⟩, hb, hp⟩
    · refine ⟨b :: more, ⟨congrArg (b :: ·) hrest, ?_⟩, marked_cons_iff.mpr (Or.inr ⟨hb, hm⟩), hp⟩
      rw [List.length_cons]
      simp only at hoffset ⊢
      omega

/-- The same where one group is the most. -/
theorem exists_marked_one {P : List UInt8 → Prop} :
    (∃ bytes, Cursor.Passed ⟨offset, b :: rest⟩ bytes c' ∧ Marked bytes ∧ bytes.length ≤ 1 ∧
      P bytes) ↔ b.toNat < 128 ∧ c' = ⟨offset + 1, rest⟩ ∧ P [b] := by
  rw [exists_marked_cons]
  constructor
  · rintro (⟨hb, hc, -, hp⟩ | ⟨-, more, -, hm, hlen, -⟩)
    · exact ⟨hb, hc, hp⟩
    · exact absurd hlen (Nat.not_le_of_gt (Nat.succ_lt_succ hm.length_pos))
  · rintro ⟨hb, hc, hp⟩
    exact Or.inl ⟨hb, hc, Nat.le_refl 1, hp⟩

/-- The same where there may be more groups. -/
theorem exists_marked_more {P : List UInt8 → Prop} {groups : Nat} :
    (∃ bytes, Cursor.Passed ⟨offset, b :: rest⟩ bytes c' ∧ Marked bytes ∧
      bytes.length ≤ groups + 1 ∧ P bytes) ↔
        b.toNat < 128 ∧ c' = ⟨offset + 1, rest⟩ ∧ P [b] ∨
        128 ≤ b.toNat ∧ ∃ more, Cursor.Passed ⟨offset + 1, rest⟩ more c' ∧ Marked more ∧
          more.length ≤ groups ∧ P (b :: more) := by
  simp only [exists_marked_cons, List.length_cons, List.length_nil, Nat.add_le_add_iff_right,
    Nat.zero_le, true_and]

theorem not_marked_of_nil {P : List UInt8 → Prop} :
    ¬ ∃ bytes, Cursor.Passed ⟨offset, []⟩ bytes c' ∧ Marked bytes ∧ P bytes := by
  rintro ⟨bytes, ⟨hrest, -⟩, hm, -⟩
  exact hm.ne_nil (List.append_eq_nil_iff.mp hrest.symm).1

theorem unsignedGroups_eq_ok_iff {more n : Nat} :
    unsignedGroups more c = .ok (n, c') ↔ ∃ bytes, c.Passed bytes c' ∧ Marked bytes ∧
      bytes.length ≤ more + 1 ∧ word bytes = n ∧ n < 16 * 128 ^ more := by
  induction more generalizing c n c' with
  | zero =>
    obtain ⟨offset, _ | ⟨b, rest⟩⟩ := c
    · exact iff_of_false nofun not_marked_of_nil
    rw [exists_marked_one, unsignedGroups, bind_ok (d := byte) rfl, word_singleton]
    split
    · rw [pure_eq_ok_iff]
      constructor
      · rintro ⟨rfl, rfl⟩
        exact ⟨by omega, rfl, by omega, by omega⟩
      · rintro ⟨hb, rfl, rfl, -⟩
        exact ⟨by omega, rfl⟩
    · refine iff_of_false fail_ne_ok ?_
      rintro ⟨hb, -, rfl, hn⟩
      omega
  | succ more ih =>
    obtain ⟨offset, _ | ⟨b, rest⟩⟩ := c
    · exact iff_of_false nofun not_marked_of_nil
    have hbyte : b.toNat < 256 := b.toNat_lt
    have hpos : 0 < 128 ^ more := Nat.pow_pos (by decide)
    rw [exists_marked_more, unsignedGroups, bind_ok (d := byte) rfl, Nat.pow_succ, word_singleton]
    split
    · rw [pure_eq_ok_iff]
      constructor
      · rintro ⟨rfl, rfl⟩
        exact Or.inl ⟨‹_›, rfl, by omega, by omega⟩
      · rintro (⟨hb, rfl, rfl, -⟩ | ⟨hb, -⟩)
        · exact ⟨by omega, rfl⟩
        · omega
    · simp only [bind_eq_ok_iff, pure_eq_ok_iff, ih]
      constructor
      · rintro ⟨high, _, ⟨bytes, hpass, hm, hlen, rfl, hlt⟩, rfl, rfl⟩
        exact Or.inr ⟨by omega, bytes, hpass, hm, hlen, by rw [word]; omega, by omega⟩
      · rintro (⟨hb, -⟩ | ⟨hb, bytes, hpass, hm, hlen, rfl, hlt⟩)
        · omega
        · rw [word] at hlt ⊢
          exact ⟨word bytes, c', ⟨bytes, hpass, hm, hlen, rfl, by omega⟩, by omega, rfl⟩

theorem signedGroup_eq (h : b.toNat < 128) : signedGroup b = signedWord [b] := by
  rw [signedWord_singleton, signedGroup]
  split <;> split <;> omega

/-- Of the last group so many bits belong to the number, and the others repeat its sign. -/
theorem signedGroups_eq_ok_iff {lastBits more : Nat} (hbits : lastBits ≤ 7) {i : Int} :
    signedGroups lastBits more c = .ok (i, c') ↔ ∃ bytes, c.Passed bytes c' ∧ Marked bytes ∧
      bytes.length ≤ more + 1 ∧ signedWord bytes = i ∧
        -(2 ^ (lastBits - 1) * 128 ^ more : Nat) ≤ i ∧ i < (2 ^ (lastBits - 1) * 128 ^ more : Nat) := by
  have hle : 2 ^ (lastBits - 1) ≤ 64 :=
    Nat.pow_le_pow_right (n := 2) (by decide) (by omega : lastBits - 1 ≤ 6)
  have hpos : 0 < 2 ^ (lastBits - 1) := Nat.pow_pos (by decide)
  -- from here on half a group is a number like any other
  obtain ⟨half, hpow⟩ : ∃ half, Nat.pow 2 (lastBits - 1) = half := ⟨_, rfl⟩
  rw [show 2 ^ (lastBits - 1) = half from hpow] at hle hpos ⊢
  induction more generalizing c i c' with
  | zero =>
    obtain ⟨offset, _ | ⟨b, rest⟩⟩ := c
    · exact iff_of_false nofun not_marked_of_nil
    rw [exists_marked_one, signedGroups, bind_ok (d := byte) rfl, hpow]
    simp only [Bool.or_eq_true, Bool.and_eq_true, decide_eq_true_eq, Nat.pow_zero, Nat.mul_one]
    split
    · rename_i hlast
      have hb : b.toNat < 128 := by omega
      rw [pure_eq_ok_iff, signedGroup_eq hb]
      constructor
      · rintro ⟨rfl, rfl⟩
        refine ⟨hb, rfl, rfl, ?_⟩
        rw [signedWord_singleton]
        split <;> omega
      · rintro ⟨-, rfl, rfl, -⟩
        exact ⟨rfl, rfl⟩
    · refine iff_of_false fail_ne_ok ?_
      rintro ⟨hb, -, rfl, hrange⟩
      rw [signedWord_singleton] at hrange
      split at hrange <;> omega
  | succ more ih =>
    obtain ⟨offset, _ | ⟨b, rest⟩⟩ := c
    · exact iff_of_false nofun not_marked_of_nil
    have hbyte : b.toNat < 256 := b.toNat_lt
    have hpos : 0 < half * 128 ^ more := Nat.mul_pos hpos (Nat.pow_pos (by decide))
    rw [exists_marked_more, signedGroups, bind_ok (d := byte) rfl, Nat.pow_succ, ← Nat.mul_assoc]
    split
    · rename_i hb
      rw [pure_eq_ok_iff, signedGroup_eq hb]
      constructor
      · rintro ⟨rfl, rfl⟩
        refine Or.inl ⟨hb, rfl, rfl, ?_⟩
        rw [signedWord_singleton]
        split <;> omega
      · rintro (⟨-, rfl, rfl, -⟩ | ⟨hb, -⟩)
        · exact ⟨rfl, rfl⟩
        · omega
    · simp only [bind_eq_ok_iff, pure_eq_ok_iff, ih]
      constructor
      · rintro ⟨high, _, ⟨bytes, hpass, hm, hlen, rfl, hrange⟩, rfl, rfl⟩
        refine Or.inr ⟨by omega, bytes, hpass, hm, hlen, ?_, by omega⟩
        rw [signedWord_cons hm.ne_nil]
        omega
      · rintro (⟨hb, -⟩ | ⟨hb, bytes, hpass, hm, hlen, rfl, hrange⟩)
        · omega
        · rw [signedWord_cons hm.ne_nil] at hrange ⊢
          exact ⟨signedWord bytes, c', ⟨bytes, hpass, hm, hlen, rfl, by omega⟩, by omega, rfl⟩

theorem u32_eq_ok_iff {n : UInt32} : u32 c = .ok (n, c') ↔
    ∃ bytes, c.Passed bytes c' ∧ IntType.u32.Spells bytes n.toNat := by
  simp only [u32, bind_eq_ok_iff, pure_eq_ok_iff, unsignedGroups_eq_ok_iff]
  constructor
  · rintro ⟨_, _, ⟨bytes, hpass, hm, hlen, rfl, hlt⟩, rfl, rfl⟩
    rw [toNat_toUInt32 hlt]
    exact ⟨bytes, hpass, hm, hlen, rfl, Int.natCast_nonneg _, Int.ofNat_lt.mpr hlt⟩
  · rintro ⟨bytes, hpass, hm, hlen, hvalue, -, -⟩
    have hword : word bytes = n.toNat := Int.ofNat_inj.mp hvalue
    exact ⟨n.toNat, c', ⟨bytes, hpass, hm, hlen, hword, n.toNat_lt⟩, by simp, rfl⟩

/-- The groups of a signed type, the last of which is not full. -/
theorem signed_eq_ok_iff {t : IntType} {lastBits more : Nat} {i : Int} (hsigned : t.isSigned = true)
    (hgroups : t.maxGroups = more + 1) (hbits : t.bits - 1 = lastBits - 1 + 7 * more)
    (hlast : lastBits ≤ 7) : signedGroups lastBits more c = .ok (i, c') ↔
      ∃ bytes, c.Passed bytes c' ∧ t.Spells bytes i := by
  have hpow : 2 ^ (t.bits - 1) = 2 ^ (lastBits - 1) * 128 ^ more := by
    rw [hbits, Nat.pow_add, Nat.pow_mul]
  rw [signedGroups_eq_ok_iff hlast, ← hpow]
  refine exists_congr fun bytes => and_congr_right fun _ => ⟨?_, ?_⟩
  · rintro ⟨hm, hlen, hvalue, hleast, hbound⟩
    exact ⟨hm, by rwa [hgroups], by rwa [IntType.value, if_pos hsigned],
      by rwa [IntType.least, if_pos hsigned], by rwa [IntType.bound, if_pos hsigned]⟩
  · rintro ⟨hm, hlen, hvalue, hleast, hbound⟩
    rw [IntType.value, if_pos hsigned] at hvalue
    rw [IntType.least, if_pos hsigned] at hleast
    rw [IntType.bound, if_pos hsigned] at hbound
    exact ⟨hm, hgroups ▸ hlen, hvalue, hleast, hbound⟩

theorem s32_eq_ok_iff {i : Int} : s32 c = .ok (i, c') ↔
    ∃ bytes, c.Passed bytes c' ∧ IntType.s32.Spells bytes i :=
  signed_eq_ok_iff rfl rfl rfl (by decide)

theorem s64_eq_ok_iff {i : Int} : s64 c = .ok (i, c') ↔
    ∃ bytes, c.Passed bytes c' ∧ IntType.s64.Spells bytes i :=
  signed_eq_ok_iff rfl rfl rfl (by decide)

end Decoder

/-! ## Readers -/

namespace Reader

/-- The bytes at the position, inside the limit. -/
def Holds (r : Reader) (bytes : List UInt8) : Prop :=
  r.position + bytes.length ≤ r.limit ∧ (r.input.drop r.position).take bytes.length = bytes

/-- The reader so many bytes further on. -/
def skip (r : Reader) (n : Nat) : Reader := { r with position := r.position + n }

variable {r r' : Reader} {bytes : List UInt8}

theorem holds_iff (h : bytes ≠ []) : r.Holds bytes ↔ ∃ rest, r.window = bytes ++ rest := by
  have hpos := List.length_pos_iff.mpr h
  unfold Holds window remaining
  constructor
  · rintro ⟨hlimit, htake⟩
    refine ⟨((r.input.drop r.position).take (r.limit - r.position)).drop bytes.length, ?_⟩
    conv_lhs => rw [← List.take_append_drop bytes.length (List.take _ _)]
    rw [List.take_take, Nat.min_eq_left (by omega), htake]
  · rintro ⟨rest, hrest⟩
    have hlen := congrArg List.length hrest
    rw [List.length_take, List.length_append] at hlen
    refine ⟨by omega, ?_⟩
    rw [← Nat.min_eq_left (show bytes.length ≤ r.limit - r.position by omega), ← List.take_take,
      hrest, List.take_left]

/-- A read without an error is the decoder on the window. -/
theorem read_eq_iff {α : Type} {d : Decoder α} {onFailure v : α} :
    (r.read d onFailure = (v, r') ∧ r'.error = none) ↔
      r.error = none ∧ ∃ c, d ⟨r.position, r.window⟩ = .ok (v, c) ∧
        r' = { r with position := c.offset } := by
  unfold read
  cases herror : r.error with
  | some e =>
    refine iff_of_false ?_ (by simp)
    rintro ⟨⟨⟩, h⟩
    simp [herror] at h
  | none =>
    cases hd : d ⟨r.position, r.window⟩ with
    | error e =>
      refine iff_of_false ?_ (by simp)
      rintro ⟨⟨⟩, h⟩
      simp at h
    | ok result =>
      constructor
      · rintro ⟨⟨⟩, -⟩
        exact ⟨rfl, result.2, rfl, rfl⟩
      · rintro ⟨-, c, ⟨⟩, rfl⟩
        exact ⟨rfl, rfl⟩

end Reader

/-! ## All types -/

namespace IntType

open Groups

variable {t : IntType} {bytes other : List UInt8} {v : Int}

theorem length_encode_le (h : Marked other) : (t.encode (t.value other)).length ≤ other.length := by
  unfold encode value
  split
  · exact length_signed_le h
  · exact length_unsigned_le h

theorem Spells.pad (h : t.Spells bytes v) (hlen : bytes.length < t.maxGroups) :
    t.Spells (pad t.isSigned bytes) v where
  marked := marked_pad _ h.marked
  length := by
    rw [length_pad _ h.marked.ne_nil]
    exact hlen
  value := by
    rw [← h.value]
    unfold IntType.value
    split
    · rename_i hs
      rw [hs, signedWord_pad h.marked]
    · rename_i hs
      rw [Bool.not_eq_true] at hs
      rw [hs, word_pad h.marked]
  least := h.least
  bound := h.bound

theorem Spells.pads {groups : Nat} (h : t.Spells bytes v)
    (hlen : bytes.length + groups ≤ t.maxGroups) :
    t.Spells ((Groups.pad t.isSigned)^[groups] bytes) v ∧
      ((Groups.pad t.isSigned)^[groups] bytes).length = bytes.length + groups := by
  induction groups with
  | zero => exact ⟨h, rfl⟩
  | succ groups ih =>
    obtain ⟨hspells, hlength⟩ := ih (by omega)
    rw [Function.iterate_succ_apply', length_pad _ hspells.marked.ne_nil, hlength]
    exact ⟨hspells.pad (by omega), rfl⟩

theorem value_concat (t : IntType) (init : List UInt8) (last : UInt8) :
    ∃ low : Nat, low < 128 ^ init.length ∧
      t.value (init ++ [last]) = low + (128 ^ init.length : Nat) * t.value [last] := by
  induction init with
  | nil => exact ⟨0, by simp, by simp⟩
  | cons b rest ih =>
    obtain ⟨low, hlow, hvalue⟩ := ih
    refine ⟨b.toNat % 128 + 128 * low, by rw [List.length_cons, Nat.pow_succ]; omega, ?_⟩
    have hstep : t.value (b :: (rest ++ [last])) =
        (b.toNat % 128 : Nat) + 128 * t.value (rest ++ [last]) := by
      unfold value
      split
      · exact signedWord_cons (by simp)
      · rw [word]
        omega
    rw [List.cons_append, hstep, hvalue, List.length_cons, Nat.pow_succ]
    push_cast
    ring

/-- The last group of a spelling counts for the highest part of the number. -/
theorem Spells.exists_last {groups : Nat} (h : t.Spells bytes v) (hlen : bytes.length = groups + 1) :
    ∃ low : Nat, (bytes.getLastD 0).toNat < 128 ∧ low < 128 ^ groups ∧
      v = low + (128 ^ groups : Nat) * t.value [bytes.getLastD 0] := by
  obtain ⟨init, last, rfl⟩ : ∃ init last, bytes = init ++ [last] :=
    ⟨_, _, (List.dropLast_concat_getLast h.marked.ne_nil).symm⟩
  obtain ⟨low, hlow, hvalue⟩ := value_concat t init last
  have hinit : init.length = groups := by simpa using hlen
  rw [hinit] at hlow hvalue
  rw [List.getLastD_concat]
  exact ⟨low, h.marked.last_lt, hlow, h.value.symm.trans hvalue⟩

/-- The types that are read. -/
def all : List IntType := [u32, s32, s64]

theorem extended_of_last {last : UInt8} (ht : t ∈ all) (hlast : last.toNat < 128)
    (hleast : t.least < (128 ^ (t.maxGroups - 1) : Nat) * (t.value [last] + 1))
    (hbound : (128 ^ (t.maxGroups - 1) : Nat) * t.value [last] < t.bound) : t.Extended last := by
  have hall : ∀ t ∈ all, ∀ n < 128, t.least < (128 ^ (t.maxGroups - 1) : Nat) *
      (t.value [UInt8.ofNat n] + 1) → (128 ^ (t.maxGroups - 1) : Nat) * t.value [UInt8.ofNat n] <
        t.bound → t.Extended (UInt8.ofNat n) := by
    unfold Extended
    decide +kernel
  have := hall t ht last.toNat hlast
  rw [UInt8.ofNat_toNat] at this
  exact this hleast hbound

/-- A last group that is not an extension makes the number too large for its type. -/
theorem Spells.extended (h : t.Spells bytes v) (ht : t ∈ all) (hlen : bytes.length = t.maxGroups) :
    t.Extended (bytes.getLastD 0) := by
  have hpos : 0 < t.maxGroups := hlen ▸ h.marked.length_pos
  obtain ⟨low, hlast, hlow, hv⟩ :=
    h.exists_last (show bytes.length = t.maxGroups - 1 + 1 by omega)
  refine extended_of_last ht hlast (Int.lt_of_le_of_lt h.least ?_) (Int.lt_of_le_of_lt ?_ h.bound)
  · rw [Int.mul_add]
    omega
  · omega

theorem length_encode (ht : t ∈ all) (hleast : t.least ≤ v) (hbound : v < t.bound) :
    (t.encode v).length ≤ t.maxGroups := by
  simp only [all, List.mem_cons, List.not_mem_nil, or_false] at ht
  rcases ht with rfl | rfl | rfl
  · have hlow : (0 : Int) ≤ v := hleast
    have hhigh : v < 2 ^ 32 := hbound
    exact @Decoder.length_unsigned 4 _ (by omega)
  · have hlow : -(2 ^ 31 : Int) ≤ v := hleast
    have hhigh : v < 2 ^ 31 := hbound
    exact @length_signed 4 v (by omega) (by omega)
  · have hlow : -(2 ^ 63 : Int) ≤ v := hleast
    have hhigh : v < 2 ^ 63 := hbound
    exact @length_signed 9 v (by omega) (by omega)

/-- The standard encoding is a spelling. -/
theorem spells_encode (ht : t ∈ all) (hleast : t.least ≤ v) (hbound : v < t.bound) :
    t.Spells (t.encode v) v where
  marked := by
    unfold encode
    split
    · exact marked_signed v
    · exact marked_unsigned _
  length := length_encode ht hleast hbound
  value := by
    unfold value encode
    split
    · exact signedWord_signed v
    · rename_i hs
      rw [least, if_neg hs] at hleast
      rw [word_unsigned]
      omega
  least := hleast
  bound := hbound

end IntType

/-! ## Exact reads -/

namespace Decoder

/-- **The spellings of the type are all that the decoder reads**, by readers in every state. -/
structure Exact {α : Type} (d : Decoder α) (t : IntType) (toInt : α → Int) : Prop where
  /-- A number comes from the bytes that spell it, which are consumed, and from nothing else. -/
  reads_iff : ∀ (r r' : Reader) (onFailure a : α),
    r.read d onFailure = (a, r') ∧ r'.error = none ↔
      r.error = none ∧ ∃ bytes, r.Holds bytes ∧ t.Spells bytes (toInt a) ∧
        r' = r.skip bytes.length
  /-- Every number of the type is read from its standard encoding and from each padded one, up to
  the greatest length. -/
  padded : ∀ (r : Reader) (onFailure : α) (v : Int) (groups : Nat), t.least ≤ v → v < t.bound →
    (t.encode v).length + groups ≤ t.maxGroups → r.error = none →
    r.Holds ((Groups.pad t.isSigned)^[groups] (t.encode v)) →
    ∃ a, toInt a = v ∧ r.read d onFailure = (a, r.skip ((t.encode v).length + groups))
  /-- The standard encoding is not too long, and no spelling is shorter. -/
  shortest : ∀ v, t.least ≤ v → v < t.bound → (t.encode v).length ≤ t.maxGroups ∧
    ∀ other, t.Spells other v → (t.encode v).length ≤ other.length
  /-- Bits of a last group that are no extension of the number are an error. -/
  rejects : ∀ (r : Reader) (onFailure : α) (bytes : List UInt8), r.Holds bytes →
    Groups.Marked bytes → bytes.length = t.maxGroups → ¬ t.Extended (bytes.getLastD 0) →
    (r.read d onFailure).2.error ≠ none

theorem exact_of_eq_ok_iff {α : Type} {d : Decoder α} {t : IntType} {toInt : α → Int}
    (ht : t ∈ IntType.all) (hsurj : ∀ v, t.least ≤ v → v < t.bound → ∃ a, toInt a = v)
    (h : ∀ c c' a, d c = .ok (a, c') ↔ ∃ bytes, c.Passed bytes c' ∧ t.Spells bytes (toInt a)) :
    d.Exact t toInt := by
  have hreads : ∀ (r r' : Reader) (onFailure a : α),
      r.read d onFailure = (a, r') ∧ r'.error = none ↔
        r.error = none ∧ ∃ bytes, r.Holds bytes ∧ t.Spells bytes (toInt a) ∧
          r' = r.skip bytes.length := by
    intro r r' onFailure a
    rw [Reader.read_eq_iff]
    refine and_congr_right fun _ => ?_
    constructor
    · rintro ⟨c, hc, rfl⟩
      obtain ⟨bytes, ⟨hrest, hoffset⟩, hspells⟩ := (h _ _ _).mp hc
      exact ⟨bytes, (Reader.holds_iff hspells.marked.ne_nil).mpr ⟨_, hrest⟩, hspells,
        by rw [hoffset]; rfl⟩
    · rintro ⟨bytes, hholds, hspells, rfl⟩
      obtain ⟨rest, hrest⟩ := (Reader.holds_iff hspells.marked.ne_nil).mp hholds
      exact ⟨⟨r.position + bytes.length, rest⟩, (h _ _ _).mpr ⟨bytes, ⟨hrest, rfl⟩, hspells⟩, rfl⟩
  refine ⟨hreads, ?_, ?_, ?_⟩
  · intro r onFailure v groups hleast hbound hlen herror hholds
    obtain ⟨a, rfl⟩ := hsurj v hleast hbound
    obtain ⟨hspells, hlength⟩ := (IntType.spells_encode ht hleast hbound).pads hlen
    refine ⟨a, rfl, ?_⟩
    rw [← hlength]
    exact ((hreads r _ onFailure a).mpr ⟨herror, _, hholds, hspells, rfl⟩).1
  · intro v hleast hbound
    refine ⟨IntType.length_encode ht hleast hbound, fun other hother => ?_⟩
    rw [← hother.value]
    exact IntType.length_encode_le hother.marked
  · intro r onFailure bytes hholds hm hlen hext hnone
    obtain ⟨-, other, hholds', hspells, -⟩ :=
      (hreads r (r.read d onFailure).2 onFailure (r.read d onFailure).1).mp ⟨rfl, hnone⟩
    obtain ⟨rest, hrest⟩ := (Reader.holds_iff hm.ne_nil).mp hholds
    obtain ⟨rest', hrest'⟩ := (Reader.holds_iff hspells.marked.ne_nil).mp hholds'
    -- The bytes end where a spelling ends, so no other bytes can be the ones that were read.
    obtain rfl := hm.eq_of_append hspells.marked (hrest.symm.trans hrest')
    exact hext (hspells.extended ht hlen)

/-- **Integers are read exactly.** -/
theorem integers_read_exactly :
    Exact u32 .u32 (fun n => n.toNat) ∧ Exact s32 .s32 id ∧ Exact s64 .s64 id := by
  refine ⟨exact_of_eq_ok_iff (by simp [IntType.all]) ?_ fun _ _ _ => u32_eq_ok_iff,
    exact_of_eq_ok_iff (by simp [IntType.all]) (fun v _ _ => ⟨v, rfl⟩) fun _ _ _ => s32_eq_ok_iff,
    exact_of_eq_ok_iff (by simp [IntType.all]) (fun v _ _ => ⟨v, rfl⟩) fun _ _ _ => s64_eq_ok_iff⟩
  intro v hleast hbound
  have hlow : (0 : Int) ≤ v := hleast
  have hhigh : v < 2 ^ 32 := hbound
  refine ⟨v.toNat.toUInt32, ?_⟩
  show (v.toNat.toUInt32.toNat : Int) = v
  rw [toNat_toUInt32 (show v.toNat < 2 ^ 32 by omega)]
  omega

end Decoder

end WasmDebugger
