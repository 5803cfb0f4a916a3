import Mathlib.Data.List.Forall2
import Mathlib.Data.Nat.Digits.Defs
import WasmDebugger.Value.Literal

/-!
# Integer literals

Which texts a user can type for an integer, and which integer each of them is.

* `Numeral.Denotes`: a text of digits, at least one, and the number that it denotes.
* `IntegerLiteral`: an optional sign, an optional mark of the radix, and digits of that radix.
* `natural?_eq_some_iff`, `integerLiteral?_eq_some_iff`: what is read is what the grammar says.
* `denotes_toDigits`: the digits of a number denote it.
* **`integers_parse_iff`**: an integer is parsed from the literals and from no other text, and each
  value from all of its spellings.
-/

namespace WasmDebugger

namespace Numeral

variable {radix n d : Nat} {c : Char} {text : List Char} {ds : List Nat}

/-! ## Digits -/

/-- The character stands for the digit `d`, a letter in either case. -/
def IsDigit (radix : Nat) (c : Char) (d : Nat) : Prop :=
  d < radix ∧ (c = d.digitChar ∨ c = d.digitChar.toUpper)

theorem isDigit_digitChar (h : d < radix) : IsDigit radix d.digitChar d := ⟨h, Or.inl rfl⟩

/-- A character that does not come before another one, from how far behind it is. -/
theorem eq_ofNat_of_le {first : Char} (h : first ≤ c) :
    c = Char.ofNat (c.toNat - first.toNat + first.toNat) := by
  have hle : first.toNat ≤ c.toNat := h
  rw [Nat.sub_add_cancel hle, Char.ofNat_toNat]

theorem digitChar_figure : ∀ k < 10, Char.ofNat (k + '0'.toNat) = k.digitChar := by decide

theorem digitChar_small : ∀ k < 6, Char.ofNat (k + 'a'.toNat) = (k + 10).digitChar := by decide

theorem digitChar_capital :
    ∀ k < 6, Char.ofNat (k + 'A'.toNat) = (k + 10).digitChar.toUpper := by decide

theorem digit?_digitChar : ∀ d < 16,
    digit? 16 d.digitChar = some d ∧ digit? 16 d.digitChar.toUpper = some d := by decide

theorem isDigit_of_digit? (h : digit? 16 c = some d) : IsDigit 16 c d := by
  unfold digit? at h
  obtain ⟨hvalue, hlt⟩ := Option.filter_eq_some_iff.mp h
  have hlt : d < 16 := of_decide_eq_true hlt
  refine ⟨hlt, ?_⟩
  split at hvalue
  · rename_i hrange
    obtain ⟨hfirst, hlast⟩ := Bool.and_eq_true_iff.mp hrange
    have hlast : c.toNat ≤ '0'.toNat + 9 := of_decide_eq_true hlast
    cases hvalue
    left
    rw [← digitChar_figure _ (by omega)]
    exact eq_ofNat_of_le (of_decide_eq_true hfirst)
  · split at hvalue
    · rename_i hrange
      obtain ⟨hfirst, -⟩ := Bool.and_eq_true_iff.mp hrange
      cases hvalue
      left
      rw [← digitChar_small _ (by omega)]
      exact eq_ofNat_of_le (of_decide_eq_true hfirst)
    · split at hvalue
      · rename_i hrange
        obtain ⟨hfirst, -⟩ := Bool.and_eq_true_iff.mp hrange
        cases hvalue
        right
        rw [← digitChar_capital _ (by omega)]
        exact eq_ofNat_of_le (of_decide_eq_true hfirst)
      · cases hvalue

/-- **A character is read as the digit that it stands for.** -/
theorem digit?_eq_some_iff (hr : radix ≤ 16) : digit? radix c = some d ↔ IsDigit radix c d := by
  have hnarrow : digit? radix c = some d ↔ d < radix ∧ digit? 16 c = some d := by
    unfold digit?
    simp only [Option.filter_eq_some_iff, decide_eq_true_eq]
    constructor
    · rintro ⟨hvalue, hlt⟩
      exact ⟨hlt, hvalue, by omega⟩
    · rintro ⟨hlt, hvalue, -⟩
      exact ⟨hvalue, hlt⟩
  rw [hnarrow]
  constructor
  · rintro ⟨hlt, h⟩
    exact ⟨hlt, (isDigit_of_digit? h).2⟩
  · rintro ⟨hlt, rfl | rfl⟩
    · exact ⟨hlt, (digit?_digitChar d (by omega)).1⟩
    · exact ⟨hlt, (digit?_digitChar d (by omega)).2⟩

/-! ## Numbers -/

/-- **The text denotes the number**: it consists of digits, at least one, the most significant one
first. -/
def Denotes (radix : Nat) (text : List Char) (n : Nat) : Prop :=
  text ≠ [] ∧ ∃ ds, List.Forall₂ (IsDigit radix) text ds ∧ n = Nat.ofDigits radix ds.reverse

theorem ofDigits_eq (radix : Nat) (ds : List Nat) :
    ofDigits radix ds = Nat.ofDigits radix ds.reverse := by
  unfold ofDigits
  rw [Nat.ofDigits_eq_foldr, List.foldr_reverse]
  congr
  funext n d
  rw [Nat.add_comm, Nat.mul_comm]
  rfl

theorem spanDigits_eq_iff (hr : radix ≤ 16) :
    spanDigits radix text = (ds, []) ↔ List.Forall₂ (IsDigit radix) text ds := by
  induction text generalizing ds with
  | nil => simp [spanDigits, eq_comm]
  | cons c rest ih =>
    unfold spanDigits
    cases hc : digit? radix c with
    | none =>
      simp only [Prod.mk.injEq, reduceCtorEq, and_false, false_iff]
      intro hall
      cases hall with
      | cons hd _ =>
        rw [(digit?_eq_some_iff hr).mpr hd] at hc
        cases hc
    | some d =>
      have hd := (digit?_eq_some_iff hr).mp hc
      simp only [Prod.mk.injEq]
      constructor
      · rintro ⟨rfl, hrest⟩
        exact .cons hd (ih.mp (Prod.ext rfl hrest))
      · intro hall
        cases hall with
        | cons hd' hrest =>
          rw [(digit?_eq_some_iff hr).mpr hd'] at hc
          cases hc
          rw [ih.mpr hrest]
          exact ⟨rfl, rfl⟩

/-- **A whole text is read as the number that it denotes**, and every other text is refused. -/
theorem natural?_eq_some_iff (hr : radix ≤ 16) :
    natural? radix text = some n ↔ Denotes radix text n := by
  unfold natural? Denotes
  constructor
  · intro h
    split at h
    · rename_i d ds hspan
      cases h
      have hall := (spanDigits_eq_iff hr).mp hspan
      exact ⟨List.ne_nil_of_length_pos (by rw [hall.length_eq]; simp), d :: ds, hall,
        ofDigits_eq radix (d :: ds)⟩
    · cases h
  · rintro ⟨hne, ds, hall, rfl⟩
    rw [(spanDigits_eq_iff hr).mpr hall]
    cases hall with
    | nil => exact absurd rfl hne
    | cons _ _ => exact congrArg some (ofDigits_eq _ _)

/-- One more digit at the end. -/
theorem Denotes.snoc (h : Denotes radix text n) (hd : IsDigit radix c d) :
    Denotes radix (text ++ [c]) (radix * n + d) := by
  obtain ⟨-, ds, hall, rfl⟩ := h
  refine ⟨by simp, ds ++ [d], List.rel_append hall (.cons hd .nil), ?_⟩
  rw [List.reverse_append]
  show _ = Nat.ofDigits radix (d :: ds.reverse)
  rw [Nat.ofDigits_cons, Nat.add_comm]

/-- Zeros in front change nothing. -/
theorem Denotes.zeros (h : Denotes radix text n) (hr : 0 < radix) (k : Nat) :
    Denotes radix (List.replicate k '0' ++ text) n := by
  obtain ⟨hne, ds, hall, rfl⟩ := h
  refine ⟨by simp [hne], List.replicate k 0 ++ ds, ?_, ?_⟩
  · refine List.rel_append ?_ hall
    induction k with
    | zero => exact .nil
    | succ k ih => exact .cons ⟨hr, Or.inl rfl⟩ ih
  · rw [List.reverse_append, Nat.ofDigits_append, List.reverse_replicate,
      Nat.ofDigits_replicate_zero]
    simp

/-- **The digits of a number denote it.** -/
theorem denotes_toDigits (hr : 1 < radix) (n : Nat) :
    Denotes radix (Nat.toDigits radix n) n := by
  induction n using Nat.strongRecOn with
  | ind n ih =>
    rcases Nat.lt_or_ge n radix with hlt | hge
    · rw [Nat.toDigits_of_lt_base hlt]
      exact ⟨by simp, [n], .cons (isDigit_digitChar hlt) .nil, by simp⟩
    · rw [Nat.toDigits_of_base_le hr hge]
      have hdigit : IsDigit radix (n % radix).digitChar (n % radix) :=
        isDigit_digitChar (Nat.mod_lt n (by omega))
      have hsnoc := (ih (n / radix) (Nat.div_lt_self (by omega) hr)).snoc hdigit
      rwa [Nat.div_add_mod] at hsnoc

end Numeral

open Numeral

/-! ## Literals -/

/-- A sign, and whether it makes a number negative. None at all is a plus. -/
inductive Sign : List Char → Bool → Prop where
  | none : Sign [] false
  | plus : Sign ['+'] false
  | minus : Sign ['-'] true

/-- A mark and the radix that it stands for. Without one a number is decimal. -/
inductive RadixMark : List Char → Nat → Prop where
  | decimal : RadixMark [] 10
  | hexadecimal {x : Char} (h : x = 'x' ∨ x = 'X') : RadixMark ['0', x] 16
  | octal {o : Char} (h : o = 'o' ∨ o = 'O') : RadixMark ['0', o] 8
  | binary {b : Char} (h : b = 'b' ∨ b = 'B') : RadixMark ['0', b] 2

/-- **The texts of integers**: an optional sign, an optional mark, and digits of a number below
`2 ^ 64`. -/
inductive IntegerLiteral : List Char → Int → Prop where
  | intro {sign mark digits : List Char} {negative : Bool} {radix n : Nat}
      (hsign : Sign sign negative) (hmark : RadixMark mark radix)
      (hdigits : Denotes radix digits n) (hn : n < 2 ^ 64) :
      IntegerLiteral (sign ++ (mark ++ digits)) (if negative then -n else n)

variable {text sign mark digits : List Char} {negative : Bool} {radix n : Nat} {z : Int}

theorem RadixMark.one_lt (h : RadixMark mark radix) : 1 < radix := by
  cases h <;> decide

theorem RadixMark.le (h : RadixMark mark radix) : radix ≤ 16 := by
  cases h <;> decide

theorem exists_sign (text : List Char) :
    ∃ sign, Sign sign (splitSign text).1 ∧ text = sign ++ (splitSign text).2 := by
  unfold splitSign
  split
  · exact ⟨_, .minus, rfl⟩
  · exact ⟨_, .plus, rfl⟩
  · exact ⟨_, .none, rfl⟩

/-- The sign is told from what follows, unless that starts with one, too. -/
theorem splitSign_append (h : Sign sign negative) {rest : List Char}
    (hrest : rest.head? ≠ some '-' ∧ rest.head? ≠ some '+') :
    splitSign (sign ++ rest) = (negative, rest) := by
  cases h with
  | none =>
    show splitSign rest = (false, rest)
    unfold splitSign
    split
    · exact absurd rfl hrest.1
    · exact absurd rfl hrest.2
    · rfl
  | plus | minus => rfl

theorem exists_mark (text : List Char) :
    ∃ mark, RadixMark mark (integerRadix text).1 ∧ text = mark ++ (integerRadix text).2 := by
  unfold integerRadix
  split
  · split
    · exact ⟨_, .hexadecimal (Or.inl rfl), rfl⟩
    · exact ⟨_, .hexadecimal (Or.inr rfl), rfl⟩
    · exact ⟨_, .octal (Or.inl rfl), rfl⟩
    · exact ⟨_, .octal (Or.inr rfl), rfl⟩
    · exact ⟨_, .binary (Or.inl rfl), rfl⟩
    · exact ⟨_, .binary (Or.inr rfl), rfl⟩
    · exact ⟨_, .decimal, rfl⟩
  · exact ⟨_, .decimal, rfl⟩

theorem digitChar_ne_sign : ∀ d < 16, d.digitChar ∉ ['-', '+'] ∧
    d.digitChar.toUpper ∉ ['-', '+'] := by decide

theorem digitChar_ne_mark : ∀ d < 10, d.digitChar ∉ ['x', 'X', 'o', 'O', 'b', 'B'] ∧
    d.digitChar.toUpper ∉ ['x', 'X', 'o', 'O', 'b', 'B'] := by decide

/-- An unsigned literal does not start with a sign. -/
theorem head?_unsigned (hmark : RadixMark mark radix) (hdigits : Denotes radix digits n) :
    (mark ++ digits).head? ≠ some '-' ∧ (mark ++ digits).head? ≠ some '+' := by
  cases hmark with
  | decimal =>
    obtain ⟨hne, ds, hall, -⟩ := hdigits
    cases hall with
    | nil => exact absurd rfl hne
    | @cons c d rest _ hd _ =>
      have hsign : c ∉ ['-', '+'] := by
        rcases hd with ⟨hlt, rfl | rfl⟩
        · exact (digitChar_ne_sign d (by omega)).1
        · exact (digitChar_ne_sign d (by omega)).2
      constructor
      · rintro ⟨rfl⟩
        exact hsign (by simp)
      · rintro ⟨rfl⟩
        exact hsign (by simp)
  | hexadecimal _ | octal _ | binary _ => exact ⟨by simp, by simp⟩

/-- **The mark is told from the digits**: a decimal digit is none. -/
theorem integerRadix_append (hmark : RadixMark mark radix) (hdigits : Denotes radix digits n) :
    integerRadix (mark ++ digits) = (radix, digits) := by
  obtain ⟨hne, ds, hall, -⟩ := hdigits
  cases hmark with
  | decimal =>
    show integerRadix digits = (10, digits)
    unfold integerRadix
    split
    · rename_i c first rest
      cases hall with
      | cons _ hall =>
        cases hall with
        | @cons _ d _ _ hd _ =>
          have hmark : c ∉ ['x', 'X', 'o', 'O', 'b', 'B'] := by
            rcases hd with ⟨hlt, rfl | rfl⟩
            · exact (digitChar_ne_mark d hlt).1
            · exact (digitChar_ne_mark d hlt).2
          split
          case h_7 => rfl
          all_goals exact absurd (by simp) hmark
    · rfl
  | hexadecimal h | octal h | binary h =>
    obtain ⟨c, rest, rfl⟩ := List.exists_cons_of_ne_nil hne
    rcases h with rfl | rfl <;> rfl

/-- **An integer is read from its literals**, and every other text is refused. -/
theorem integerLiteral?_eq_some_iff : integerLiteral? text = some z ↔ IntegerLiteral text z := by
  unfold integerLiteral?
  constructor
  · intro h
    obtain ⟨sign, hsign, htext⟩ := exists_sign text
    obtain ⟨mark, hmark, hrest⟩ := exists_mark (splitSign text).2
    simp only [bind, Option.bind_eq_some_iff] at h
    obtain ⟨n, hn, h⟩ := h
    split at h
    · rename_i hlt
      cases h
      have hliteral :=
        IntegerLiteral.intro hsign hmark ((natural?_eq_some_iff hmark.le).mp hn) hlt
      rwa [← hrest, ← htext] at hliteral
    · cases h
  · rintro ⟨hsign, hmark, hdigits, hn⟩
    rw [splitSign_append hsign (head?_unsigned hmark hdigits)]
    simp only [integerRadix_append hmark hdigits, (natural?_eq_some_iff hmark.le).mpr hdigits]
    exact if_pos hn

/-! ## Values -/

namespace Value

variable {w : Width}

theorem parse?_int (w : Width) (text : String) : parse? (.int w) text =
    (integerLiteral? text.toList).map fun z => .int w (BitVec.ofInt w.bits z) := by
  cases w <;> rfl

theorem parse?_of_literal {text : String} (h : IntegerLiteral text.toList z) :
    parse? (.int w) text = some (.int w (BitVec.ofInt w.bits z)) := by
  rw [parse?_int, integerLiteral?_eq_some_iff.mpr h]
  rfl

theorem toNat_ofInt_iff {b : BitVec w.bits} :
    (b.toNat : Int) = z % 2 ^ w.bits ↔ b = BitVec.ofInt w.bits z := by
  have hmod : (((z % (2 ^ w.bits : Nat)).toNat : Nat) : Int) = z % 2 ^ w.bits := by
    rw [Int.toNat_of_nonneg (Int.emod_nonneg _ (by positivity))]
    norm_cast
  rw [← BitVec.toNat_inj, BitVec.toNat_ofInt, ← hmod]
  exact Int.ofNat_inj

theorem pow_bits_le (w : Width) : 2 ^ w.bits ≤ 2 ^ 64 :=
  Nat.pow_le_pow_right (by decide) (by cases w <;> decide)

theorem toNat_bits_lt (b : BitVec w.bits) : b.toNat < 2 ^ 64 :=
  Nat.lt_of_lt_of_le b.isLt (pow_bits_le w)

theorem ofInt_toNat (b : BitVec w.bits) : BitVec.ofInt w.bits b.toNat = b := by
  rw [BitVec.ofInt_natCast, BitVec.ofNat_toNat, BitVec.setWidth_eq]

/-- **A value is parsed from its bits in every radix**, whatever the case of the mark and however
many zeros stand in front. -/
theorem parse?_marked (b : BitVec w.bits) (hmark : RadixMark mark radix) (width : Nat) :
    parse? (.int w) (String.ofList mark ++
      padLeft width (String.ofList (Nat.toDigits radix b.toNat))) = some (.int w b) := by
  have hdigits := (denotes_toDigits hmark.one_lt b.toNat).zeros (Nat.lt_of_succ_lt hmark.one_lt)
    (width - (String.ofList (Nat.toDigits radix b.toNat)).length)
  have hliteral : IntegerLiteral (String.ofList mark ++
      padLeft width (String.ofList (Nat.toDigits radix b.toNat))).toList b.toNat := by
    simpa [padLeft] using IntegerLiteral.intro .none hmark hdigits (toNat_bits_lt b)
  rw [parse?_of_literal hliteral, ofInt_toNat]

/-- **Its digits alone are decimal.** -/
theorem parse?_decimal (b : BitVec w.bits) :
    parse? (.int w) (decimal b.toNat) = some (.int w b) := by
  have hdigits := denotes_toDigits (show 1 < 10 by decide) b.toNat
  have hliteral : IntegerLiteral (decimal b.toNat).toList b.toNat := by
    simpa [decimal] using IntegerLiteral.intro .none .decimal hdigits (toNat_bits_lt b)
  rw [parse?_of_literal hliteral, ofInt_toNat]

theorem natAbs_toInt_lt (b : BitVec w.bits) : b.toInt.natAbs < 2 ^ 64 := by
  have hlt := b.isLt
  have hbits := pow_bits_le w
  rw [BitVec.toInt_eq_toNat_cond]
  split <;> omega

/-- **A value is parsed from its signed number.** -/
theorem parse?_signed (b : BitVec w.bits) :
    parse? (.int w) (Numeral.signed b.toInt) = some (.int w b) := by
  have hdigits := denotes_toDigits (show 1 < 10 by decide) b.toInt.natAbs
  have hliteral : IntegerLiteral (Numeral.signed b.toInt).toList b.toInt := by
    unfold Numeral.signed
    by_cases hneg : b.toInt < 0
    · have hminus : -(b.toInt.natAbs : Int) = b.toInt := by omega
      have h := IntegerLiteral.intro .minus .decimal hdigits (natAbs_toInt_lt b)
      rw [if_pos rfl, hminus] at h
      simpa [hneg, decimal] using h
    · have hplus : (b.toInt.natAbs : Int) = b.toInt := by omega
      have h := IntegerLiteral.intro .none .decimal hdigits (natAbs_toInt_lt b)
      rw [if_neg Bool.false_ne_true, hplus] at h
      simpa [hneg, decimal] using h
  rw [parse?_of_literal hliteral, BitVec.ofInt_toInt]

/-- **Integers are parsed from their literals.** An integer comes from the literals that denote it
modulo the width and from no other text. So each value is parsed from its number, signed or
unsigned, and from its bits in every radix. -/
theorem integers_parse_iff :
    (∀ (w : Width) (text : String) (v : Value), parse? (.int w) text = some v ↔
      ∃ (z : Int) (b : BitVec w.bits), IntegerLiteral text.toList z ∧ v = .int w b ∧
        (b.toNat : Int) = z % 2 ^ w.bits) ∧
    ∀ (w : Width) (b : BitVec w.bits),
      parse? (.int w) (Numeral.signed b.toInt) = some (.int w b) ∧
      parse? (.int w) (decimal b.toNat) = some (.int w b) ∧
      ∀ mark radix width, RadixMark mark radix →
        parse? (.int w) (String.ofList mark ++
          padLeft width (String.ofList (Nat.toDigits radix b.toNat))) = some (.int w b) := by
  refine ⟨fun w text v => ?_, fun w b =>
    ⟨parse?_signed b, parse?_decimal b, fun _ _ width hmark => parse?_marked b hmark width⟩⟩
  constructor
  · intro h
    rw [parse?_int, Option.map_eq_some_iff] at h
    obtain ⟨z, hz, rfl⟩ := h
    exact ⟨z, _, integerLiteral?_eq_some_iff.mp hz, rfl, toNat_ofInt_iff.mpr rfl⟩
  · rintro ⟨z, b, hliteral, rfl, hb⟩
    rw [parse?_of_literal hliteral, toNat_ofInt_iff.mp hb]

/-- The least `i32` in hexadecimal, with a minus sign and without. -/
theorem integers_parse_least :
    parse? .i32 "-0x80000000" = some (.i32 (BitVec.intMin 32)) ∧
      parse? .i32 "0x0080000000" = some (.i32 (BitVec.intMin 32)) := by
  refine ⟨?_, ?_⟩
  · refine (integers_parse_iff.1 .w32 _ _).mpr ⟨-0x80000000, BitVec.intMin 32, ?_, rfl, by decide⟩
    exact .intro .minus (.hexadecimal (Or.inl rfl)) ((natural?_eq_some_iff (by decide)).mp rfl)
      (by decide)
  · exact (integers_parse_iff.2 .w32 (BitVec.intMin 32)).2.2 ['0', 'x'] 16 10
      (.hexadecimal (Or.inl rfl))

end Value

end WasmDebugger
