import Mathlib.Data.Nat.Bitwise
import Mathlib.Tactic.LinearCombination
import Mathlib.Tactic.Ring
import WasmDebugger.Proofs.Effect

/-!
# Integer rules

The integer operations are those of arithmetic, on numbers without a bound. A word is read as one
of them, unsigned or in two's complement, and the result is the word that reads back as what
arithmetic asks for.

* `TruncatedDivision`: quotient and remainder when the quotient is rounded toward zero.
* `IntBinary.Gives`, `IntUnary.counted`, `IntRelation.Relates`: the rules, for words of any width.
* `IntBinary.apply_eq_ok_iff`, `IntBinary.apply_eq_error_iff`: an operation has the result that its
  rule describes and no other, or it fails for one of two reasons (`IntBinary.FailsWith`).
* `NumericOp.Computes`, `NumericOp.Fails`: the same for operands on a stack.
* **`integer_dispatch`**: an integer instruction replaces its operands by what the rule gives, is
  the fault that the rule names, or finds no operands of its types.
-/

namespace WasmDebugger

/-! ## Division -/

/-- Quotient and remainder of a division that rounds toward zero. The remainder has the sign of the
dividend. -/
structure TruncatedDivision (a b q r : Int) : Prop where
  identity : a = q * b + r
  small : r.natAbs < b.natAbs
  nonneg : 0 ≤ a → 0 ≤ r
  nonpos : a ≤ 0 → r ≤ 0

namespace TruncatedDivision

variable {a b q r q' r' : Int}

theorem ne_zero (h : TruncatedDivision a b q r) : b ≠ 0 := by
  rintro rfl
  exact absurd h.small (by simp)

/-- There is a quotient whenever there is a divisor. -/
theorem of_ne_zero (hb : b ≠ 0) : TruncatedDivision a b (a.tdiv b) (a.tmod b) where
  identity := by rw [Int.mul_comm, Int.mul_tdiv_add_tmod]
  small := by
    rw [Int.natAbs_tmod]
    exact Nat.mod_lt _ (Int.natAbs_pos.mpr hb)
  nonneg h := Int.tmod_nonneg b h
  nonpos h := by
    have := Int.tmod_nonneg b (show 0 ≤ -a by omega)
    rw [Int.neg_tmod] at this
    omega

/-- Two remainders lie on one side of zero, so they are less than a divisor apart. -/
theorem unique (h : TruncatedDivision a b q r) (h' : TruncatedDivision a b q' r') :
    q = q' ∧ r = r' := by
  have hapart : (r' - r).natAbs < b.natAbs := by
    have hs := h.small
    have hs' := h'.small
    rcases le_total 0 a with ha | ha
    · have := h.nonneg ha
      have := h'.nonneg ha
      omega
    · have := h.nonpos ha
      have := h'.nonpos ha
      omega
  have hdvd : b ∣ r' - r := ⟨q - q', by linear_combination h.identity - h'.identity⟩
  have hr : r' - r = 0 := Int.eq_zero_of_dvd_of_natAbs_lt_natAbs hdvd hapart
  have hq : q * b = q' * b := by linear_combination h'.identity - h.identity + hr
  exact ⟨Int.eq_of_mul_eq_mul_right h.ne_zero hq, by omega⟩

end TruncatedDivision

/-! ## Rules for words -/

/-- The relation that a comparison decides. -/
def IntRelation.Relates {n : Nat} (r : IntRelation) (a b : BitVec n) : Prop :=
  match r with
  | .eq => a.toNat = b.toNat
  | .ne => a.toNat ≠ b.toNat
  | .ltS => a.toInt < b.toInt
  | .ltU => a.toNat < b.toNat
  | .gtS => a.toInt > b.toInt
  | .gtU => a.toNat > b.toNat
  | .leS => a.toInt ≤ b.toInt
  | .leU => a.toNat ≤ b.toNat
  | .geS => a.toInt ≥ b.toInt
  | .geU => a.toNat ≥ b.toNat

/-- The binary expansion of a number in so many digits, the lowest first. -/
def binaryDigits (width n : Nat) : List Bool := (List.range width).map n.testBit

/-- What is counted on the binary expansion: the zeros before the first one from above or from
below, which are all digits if there is no one, and the ones. -/
def IntUnary.counted (op : IntUnary) (width n : Nat) : Nat :=
  match op with
  | .clz => (binaryDigits width n).reverse.findIdx id
  | .ctz => (binaryDigits width n).findIdx id
  | .popcnt => (binaryDigits width n).count true

/-- **What an operation on two words gives.** Sums, differences and products are taken modulo
`2 ^ n`, shift and rotation counts modulo the width. -/
def IntBinary.Gives {n : Nat} (op : IntBinary) (a b c : BitVec n) : Prop :=
  let count := b.toNat % n
  match op with
  | .add => (c.toNat : Int) = ((a.toNat : Int) + b.toNat) % 2 ^ n
  | .sub => (c.toNat : Int) = ((a.toNat : Int) - b.toNat) % 2 ^ n
  | .mul => (c.toNat : Int) = ((a.toNat : Int) * b.toNat) % 2 ^ n
  | .divS => ∃ r, TruncatedDivision a.toInt b.toInt c.toInt r
  | .divU => ∃ r, TruncatedDivision a.toNat b.toNat c.toNat r
  | .remS => ∃ q, TruncatedDivision a.toInt b.toInt q c.toInt
  | .remU => ∃ q, TruncatedDivision a.toNat b.toNat q c.toNat
  | .and => ∀ i, c.toNat.testBit i = (a.toNat.testBit i && b.toNat.testBit i)
  | .or => ∀ i, c.toNat.testBit i = (a.toNat.testBit i || b.toNat.testBit i)
  | .xor => ∀ i, c.toNat.testBit i = (a.toNat.testBit i ^^ b.toNat.testBit i)
  | .shl => c.toNat = a.toNat * 2 ^ count % 2 ^ n
  | .shrS => c.toInt = a.toInt / 2 ^ count
  | .shrU => c.toNat = a.toNat / 2 ^ count
  | .rotl => ∀ i < n, c.toNat.testBit ((i + count) % n) = a.toNat.testBit i
  | .rotr => ∀ i < n, c.toNat.testBit i = a.toNat.testBit ((i + count) % n)

def IntBinary.divides : IntBinary → Bool
  | .divS | .divU | .remS | .remU => true
  | _ => false

/-- **When an operation on two words fails.** The smallest number has no opposite, so its quotient
by minus one lies outside the range. -/
inductive IntBinary.FailsWith {n : Nat} (op : IntBinary) (a b : BitVec n) :
    ArithmeticError → Prop where
  | divisionByZero (hop : op.divides = true) (hb : b.toNat = 0) : FailsWith op a b .divisionByZero
  | signedOverflow (hop : op = .divS) (ha : a.toInt = -2 ^ (n - 1)) (hb : b.toInt = -1) :
      FailsWith op a b .signedOverflow

variable {n : Nat} {a b c c' : BitVec n}

theorem IntRelation.holds_iff (r : IntRelation) (a b : BitVec n) :
    r.holds a b = true ↔ r.Relates a b := by
  cases r <;>
    simp [IntRelation.holds, IntRelation.Relates, BitVec.toNat_inj, BitVec.slt_iff_toInt_lt,
      BitVec.sle_iff_toInt_le, BitVec.ult_iff_toNat_lt, BitVec.ule_iff_toNat_le]

/-! ### Counts -/

@[simp] theorem length_binaryDigits (width n : Nat) : (binaryDigits width n).length = width := by
  simp [binaryDigits]

theorem getElem_binaryDigits {i : Nat} (hi : i < (binaryDigits n a.toNat).length) :
    (binaryDigits n a.toNat)[i] = a.getLsbD i := by
  simp [binaryDigits, BitVec.testBit_toNat]

theorem eq_false_of_mem_binaryDigits_zero {width : Nat} {d : Bool} (h : d ∈ binaryDigits width 0) :
    d = false := by
  obtain ⟨i, -, rfl⟩ := List.mem_map.mp h
  exact Nat.zero_testBit i

theorem findIdx_of_forall_false {digits : List Bool} (h : ∀ d ∈ digits, d = false) :
    digits.findIdx id = digits.length :=
  List.findIdx_eq_length.mpr h

theorem toNat_clz_lt (ha : a ≠ 0#n) : a.clz.toNat < n := by
  have h := BitVec.lt_def.mp (BitVec.clz_lt_iff_ne_zero.mpr ha)
  exact h.trans_le (Nat.mod_le _ _)

theorem toNat_ctz_lt (ha : a ≠ 0#n) : a.ctz.toNat < n := by
  have h := BitVec.lt_def.mp (BitVec.ctz_lt_iff_ne_zero.mpr ha)
  exact h.trans_le (Nat.mod_le _ _)

theorem toNat_clz_zero (n : Nat) : (0#n).clz.toNat = n := by
  rw [BitVec.clz_eq_iff_eq_zero.mpr rfl]
  exact Nat.mod_eq_of_lt Nat.lt_two_pow_self

theorem toNat_ctz_zero (n : Nat) : (0#n).ctz.toNat = n := by
  rw [BitVec.ctz_eq_reverse_clz, BitVec.reverse_eq_zero_iff.mpr rfl]
  exact toNat_clz_zero n

theorem getLsbD_of_lt_clz {i : Nat} (hi : i < a.clz.toNat) : a.getLsbD (n - 1 - i) = false := by
  rw [← BitVec.testBit_toNat]
  refine Nat.testBit_lt_two_pow (BitVec.toNat_lt_two_pow_sub_clz.trans_le ?_)
  exact Nat.pow_le_pow_right (by omega) (by omega)

theorem counted_clz (a : BitVec n) : IntUnary.clz.counted n a.toNat = a.clz.toNat := by
  unfold IntUnary.counted
  by_cases ha : a = 0#n
  · subst ha
    have hzero : ∀ d ∈ (binaryDigits n 0).reverse, d = false := fun d hd =>
      eq_false_of_mem_binaryDigits_zero (List.mem_reverse.mp hd)
    rw [toNat_clz_zero]
    simpa using findIdx_of_forall_false hzero
  · have hlt := toNat_clz_lt ha
    refine (List.findIdx_eq (by simpa using hlt)).mpr ⟨?_, fun j hj => ?_⟩
    · rw [List.getElem_reverse, getElem_binaryDigits, length_binaryDigits]
      exact BitVec.getLsbD_true_clz_of_ne_zero (by omega) ha
    · rw [List.getElem_reverse, getElem_binaryDigits, length_binaryDigits]
      exact getLsbD_of_lt_clz hj

theorem counted_ctz (a : BitVec n) : IntUnary.ctz.counted n a.toNat = a.ctz.toNat := by
  unfold IntUnary.counted
  by_cases ha : a = 0#n
  · subst ha
    have hzero : ∀ d ∈ binaryDigits n 0, d = false := fun d => eq_false_of_mem_binaryDigits_zero
    rw [toNat_ctz_zero]
    simpa using findIdx_of_forall_false hzero
  · refine (List.findIdx_eq (by simpa using toNat_ctz_lt ha)).mpr ⟨?_, fun j hj => ?_⟩
    · rw [getElem_binaryDigits]
      exact BitVec.getLsbD_true_ctz_of_ne_zero ha
    · rw [getElem_binaryDigits]
      exact BitVec.getLsbD_false_of_lt_ctz hj

theorem cpopNatRec_eq_count (a : BitVec n) (width ones : Nat) :
    a.cpopNatRec width ones = ones + (binaryDigits width a.toNat).count true := by
  induction width generalizing ones with
  | zero => rfl
  | succ width ih =>
    have hlast : binaryDigits (width + 1) a.toNat =
        binaryDigits width a.toNat ++ [a.getLsbD width] := by
      simp [binaryDigits, List.range_succ, BitVec.testBit_toNat]
    rw [BitVec.cpopNatRec_succ, ih, hlast, List.count_append]
    cases a.getLsbD width with
    | false => simp
    | true =>
      simp only [Bool.toNat_true, List.count_singleton_self]
      omega

theorem counted_popcnt (a : BitVec n) : IntUnary.popcnt.counted n a.toNat = a.cpop.toNat := by
  rw [BitVec.toNat_cpop, cpopNatRec_eq_count, Nat.zero_add]
  rfl

/-- **Counting is done on the binary expansion.** -/
theorem IntUnary.toNat_apply (op : IntUnary) (a : BitVec n) :
    (op.apply a).toNat = op.counted n a.toNat := by
  cases op with
  | clz => exact (counted_clz a).symm
  | ctz => exact (counted_ctz a).symm
  | popcnt => exact (counted_popcnt a).symm

/-! ### Results -/

theorem truncatedDivision_toNat (a : BitVec n) (hb : b ≠ 0#n) :
    TruncatedDivision a.toNat b.toNat (a / b).toNat (a % b).toNat := by
  have hne : (b.toNat : Int) ≠ 0 := by
    intro h
    exact hb (BitVec.toNat_inj.mp (by simpa using h))
  have h := TruncatedDivision.of_ne_zero (a := a.toNat) hne
  rwa [← Int.ofNat_tdiv, ← Int.ofNat_tmod] at h

theorem truncatedDivision_toInt (a : BitVec n) (hb : b ≠ 0#n) :
    TruncatedDivision a.toInt b.toInt (a.toInt.tdiv b.toInt) (a.srem b).toInt := by
  rw [BitVec.toInt_srem]
  refine TruncatedDivision.of_ne_zero fun h => hb (BitVec.toInt_inj.mp ?_)
  rw [h, BitVec.toInt_zero]

theorem shiftCount_lt (hn : 0 < n) (b : BitVec n) : Word.shiftCount b < n := Nat.mod_lt _ hn

/-- A rotation to the left moves each bit up, and the upper ones round to the bottom. -/
theorem getLsbD_rotateLeft_add {i r : Nat} (hi : i < n) (hr : r < n) :
    (a.rotateLeft r).getLsbD ((i + r) % n) = a.getLsbD i := by
  rw [BitVec.getLsbD_rotateLeft, Nat.mod_eq_of_lt hr]
  by_cases h : i + r < n
  · rw [Nat.mod_eq_of_lt h]
    simp [h]
  · have hround : (i + r) % n = i + r - n := by
      rw [Nat.mod_eq_sub_mod (by omega), Nat.mod_eq_of_lt (by omega)]
    have hlow : i + r - n < r := by omega
    rw [hround]
    simp only [hlow, decide_true, cond_true]
    congr 1
    omega

theorem getLsbD_rotateRight_add {i r : Nat} (hi : i < n) (hr : r < n) :
    (a.rotateRight r).getLsbD i = a.getLsbD ((i + r) % n) := by
  rw [BitVec.getLsbD_rotateRight, Nat.mod_eq_of_lt hr]
  by_cases h : i + r < n
  · have hlow : i < n - r := by omega
    rw [Nat.mod_eq_of_lt h]
    simp only [hlow, decide_true, cond_true, Nat.add_comm]
  · have hround : (i + r) % n = i + r - n := by
      rw [Nat.mod_eq_sub_mod (by omega), Nat.mod_eq_of_lt (by omega)]
    have hhigh : ¬ i < n - r := by omega
    rw [hround]
    simp only [hhigh, hi, decide_false, decide_true, cond_false, Bool.true_and]
    congr 1
    omega

theorem eq_intMin_iff (hn : 0 < n) : a = BitVec.intMin n ↔ a.toInt = -2 ^ (n - 1) := by
  have hmin : (BitVec.intMin n).toInt = -2 ^ (n - 1) := by
    rw [BitVec.toInt_intMin, Nat.mod_eq_of_lt (Nat.pow_lt_pow_right (by omega) (by omega))]
    norm_cast
  rw [← hmin, BitVec.toInt_inj]

theorem eq_allOnes_iff (hn : 0 < n) : b = BitVec.allOnes n ↔ b.toInt = -1 := by
  have hones : (BitVec.allOnes n).toInt = -1 := by rw [BitVec.toInt_allOnes, if_pos hn]
  rw [← hones, BitVec.toInt_inj]

theorem toNat_sub_emod (a b : BitVec n) :
    ((a - b).toNat : Int) = ((a.toNat : Int) - b.toNat) % 2 ^ n := by
  have hb := b.isLt
  rw [BitVec.toNat_sub, Int.natCast_emod, Int.natCast_add, Int.natCast_sub hb.le]
  have hshift : ((2 ^ n : Nat) : Int) - b.toNat + a.toNat =
      (a.toNat : Int) - b.toNat + ((2 ^ n : Nat) : Int) := by ring
  rw [hshift, Int.add_emod_right, Int.natCast_pow]
  rfl

/-- An operation that only asks for a divisor. -/
theorem checked_eq_ok_iff {x : BitVec n} :
    (if b = 0#n then .error .divisionByZero else .ok x : Except ArithmeticError (BitVec n)) =
      .ok c ↔ b ≠ 0#n ∧ x = c := by
  split <;> simp [*]

theorem checked_eq_error_iff {x : BitVec n} {e : ArithmeticError} :
    (if b = 0#n then .error .divisionByZero else .ok x : Except ArithmeticError (BitVec n)) =
      .error e ↔ b = 0#n ∧ e = .divisionByZero := by
  split <;> simp [*, eq_comm]

theorem divS_eq_ok_iff : Word.divS a b = .ok c ↔
    b ≠ 0#n ∧ (a ≠ BitVec.intMin n ∨ b ≠ BitVec.allOnes n) ∧ a.sdiv b = c := by
  unfold Word.divS
  split
  · simp [*]
  · split <;> simp_all [← not_and_or]

theorem divS_eq_error_iff {e : ArithmeticError} : Word.divS a b = .error e ↔
    (b = 0#n ∧ e = .divisionByZero) ∨
      (b ≠ 0#n ∧ a = BitVec.intMin n ∧ b = BitVec.allOnes n ∧ e = .signedOverflow) := by
  unfold Word.divS
  grind

namespace IntBinary

variable {op : IntBinary} {e : ArithmeticError}

/-- **A result is what the rule gives.** -/
theorem gives_of_apply (hn : 0 < n) (h : op.apply a b = .ok c) : op.Gives a b c := by
  cases op with
  | add => cases h; simp [Gives, BitVec.toNat_add]
  | sub => cases h; exact toNat_sub_emod a b
  | mul => cases h; simp [Gives, BitVec.toNat_mul]
  | divS =>
    obtain ⟨hb, hfits, rfl⟩ := divS_eq_ok_iff.mp h
    rw [← BitVec.neg_one_eq_allOnes] at hfits
    refine ⟨(a.srem b).toInt, ?_⟩
    rw [BitVec.toInt_sdiv_of_ne_or_ne a b hfits]
    exact truncatedDivision_toInt a hb
  | divU =>
    obtain ⟨hb, rfl⟩ := checked_eq_ok_iff.mp h
    exact ⟨_, truncatedDivision_toNat a hb⟩
  | remS =>
    obtain ⟨hb, rfl⟩ := checked_eq_ok_iff.mp h
    exact ⟨_, truncatedDivision_toInt a hb⟩
  | remU =>
    obtain ⟨hb, rfl⟩ := checked_eq_ok_iff.mp h
    exact ⟨_, truncatedDivision_toNat a hb⟩
  | and => cases h; simp [Gives]
  | or => cases h; simp [Gives]
  | xor => cases h; simp [Gives]
  | shl => cases h; simp [Gives, Word.shl, Word.shiftCount, Nat.shiftLeft_eq]
  | shrS =>
    cases h
    simp [Gives, Word.shrS, Word.shiftCount, BitVec.toInt_sshiftRight, Int.shiftRight_eq_div_pow]
  | shrU => cases h; simp [Gives, Word.shrU, Word.shiftCount, Nat.shiftRight_eq_div_pow]
  | rotl =>
    cases h
    intro i hi
    rw [BitVec.testBit_toNat, BitVec.testBit_toNat]
    exact getLsbD_rotateLeft_add hi (shiftCount_lt hn b)
  | rotr =>
    cases h
    intro i hi
    rw [BitVec.testBit_toNat, BitVec.testBit_toNat]
    exact getLsbD_rotateRight_add hi (shiftCount_lt hn b)

/-- A word is known by its bits below the width. -/
theorem eq_of_testBit (h : ∀ i < n, c.toNat.testBit i = c'.toNat.testBit i) : c = c' := by
  refine BitVec.eq_of_getLsbD_eq fun i hi => ?_
  simpa [BitVec.testBit_toNat] using h i hi

/-- **A rule gives at most one word.** -/
theorem gives_unique (h : op.Gives a b c) (h' : op.Gives a b c') : c = c' := by
  cases op with
  | add | sub | mul => exact BitVec.toNat_inj.mp (Int.ofNat_inj.mp (h.trans h'.symm))
  | divS =>
    obtain ⟨_, h⟩ := h
    obtain ⟨_, h'⟩ := h'
    exact BitVec.toInt_inj.mp (h.unique h').1
  | divU =>
    obtain ⟨_, h⟩ := h
    obtain ⟨_, h'⟩ := h'
    exact BitVec.toNat_inj.mp (Int.ofNat_inj.mp (h.unique h').1)
  | remS =>
    obtain ⟨_, h⟩ := h
    obtain ⟨_, h'⟩ := h'
    exact BitVec.toInt_inj.mp (h.unique h').2
  | remU =>
    obtain ⟨_, h⟩ := h
    obtain ⟨_, h'⟩ := h'
    exact BitVec.toNat_inj.mp (Int.ofNat_inj.mp (h.unique h').2)
  | and | or | xor => exact eq_of_testBit fun i _ => (h i).trans (h' i).symm
  | shl | shrU => exact BitVec.toNat_inj.mp (h.trans h'.symm)
  | shrS => exact BitVec.toInt_inj.mp (h.trans h'.symm)
  | rotl =>
    -- every place is where some bit has moved to
    refine eq_of_testBit fun j hj => ?_
    have hcount : b.toNat % n < n := Nat.mod_lt _ (by omega)
    have hfrom : ((j + (n - b.toNat % n)) % n + b.toNat % n) % n = j := by
      rw [Nat.mod_add_mod, show j + (n - b.toNat % n) + b.toNat % n = j + n by omega,
        Nat.add_mod_right, Nat.mod_eq_of_lt hj]
    have hi : (j + (n - b.toNat % n)) % n < n := Nat.mod_lt _ (by omega)
    have hbit := (h _ hi).trans (h' _ hi).symm
    rwa [hfrom] at hbit
  | rotr => exact eq_of_testBit fun i hi => (h i hi).trans (h' i hi).symm

/-- The signed quotient of the smallest number by minus one is no word. -/
theorem not_gives_of_failsWith (hn : 0 < n) (h : op.FailsWith a b e) : ¬ op.Gives a b c := by
  cases h with
  | divisionByZero hop hb =>
    have hzero : b = 0#n := BitVec.toNat_inj.mp (by simpa using hb)
    subst hzero
    intro hg
    cases op with
    | divS | divU | remS | remU =>
      obtain ⟨_, hg⟩ := hg
      exact hg.ne_zero (by simp)
    | _ => exact absurd hop nofun
  | signedOverflow hop ha hb =>
    subst hop
    rintro ⟨r, hr⟩
    have hsmall := hr.small
    have hidentity := hr.identity
    have hlt := BitVec.toInt_lt (x := c)
    rw [hb] at hsmall hidentity
    rw [ha] at hidentity
    have hr : r = 0 := by omega
    have hpow : (2 : Int) ^ n = 2 ^ (n - 1) * 2 := by rw [← pow_succ, Nat.sub_add_cancel hn]
    omega

/-- **An operation fails for the reasons there are.** -/
theorem apply_eq_error_iff (hn : 0 < n) : op.apply a b = .error e ↔ op.FailsWith a b e := by
  have hzero : b = 0#n ↔ b.toNat = 0 := by rw [← BitVec.toNat_inj, BitVec.toNat_ofNat, Nat.zero_mod]
  constructor
  · intro h
    cases op with
    | divS =>
      rcases divS_eq_error_iff.mp h with ⟨hb, rfl⟩ | ⟨-, ha, hb, rfl⟩
      · exact .divisionByZero rfl (hzero.mp hb)
      · exact .signedOverflow rfl ((eq_intMin_iff hn).mp ha) ((eq_allOnes_iff hn).mp hb)
    | divU | remS | remU =>
      obtain ⟨hb, rfl⟩ := checked_eq_error_iff.mp h
      exact .divisionByZero rfl (hzero.mp hb)
    | _ => exact absurd h nofun
  · intro h
    cases h with
    | divisionByZero hop hb =>
      cases op with
      | divS => exact divS_eq_error_iff.mpr (.inl ⟨hzero.mpr hb, rfl⟩)
      | divU | remS | remU => exact checked_eq_error_iff.mpr ⟨hzero.mpr hb, rfl⟩
      | _ => exact absurd hop nofun
    | signedOverflow hop ha hb =>
      subst hop
      have hones := (eq_allOnes_iff hn).mpr hb
      refine divS_eq_error_iff.mpr (.inr ⟨?_, (eq_intMin_iff hn).mpr ha, hones, rfl⟩)
      intro h
      rw [h] at hb
      exact absurd hb (by simp)

/-- **An operation has the result that its rule gives**, and it has one if there is one. -/
theorem apply_eq_ok_iff (hn : 0 < n) : op.apply a b = .ok c ↔ op.Gives a b c := by
  refine ⟨gives_of_apply hn, fun h => ?_⟩
  cases happly : op.apply a b with
  | error e => exact absurd h (not_gives_of_failsWith hn ((apply_eq_error_iff hn).mp happly))
  | ok c' => rw [gives_unique h (gives_of_apply hn happly)]

end IntBinary

/-! ## Operands -/

namespace OperandStack

variable {s : OperandStack} {rest : List Value} {w : Width}

/-- What a result or an error makes of a stack. -/
def settle (s : OperandStack) (count : Nat) :
    Except ArithmeticError Value → Except Fault OperandStack
  | .ok v => .ok (s.replace count v)
  | .error e => .error (.ofArithmetic e)

theorem unary_of_offers {a : BitVec w.bits} (f : BitVec w.bits → Except ArithmeticError Value)
    (h : s.Offers [.int w a] rest) : s.unary (Value.asInt? w) f = s.settle 1 (f a) := by
  unfold unary
  rw [h.peek? 0 rfl, Option.bind_some, Value.asInt?_int]
  rfl

theorem binary_of_offers {a b : BitVec w.bits}
    (f : BitVec w.bits → BitVec w.bits → Except ArithmeticError Value)
    (h : s.Offers [.int w a, .int w b] rest) :
    s.binary (Value.asInt? w) f = s.settle 2 (f a b) := by
  unfold binary
  rw [h.peek? 0 rfl, h.peek? 1 rfl, Option.bind_some, Option.bind_some,
    Value.asInt?_int, Value.asInt?_int]
  rfl

/-- Without an operand of its type an operation is a mismatch. -/
theorem unary_mismatch {f : BitVec w.bits → Except ArithmeticError Value}
    (h : ¬ ∃ vs rest, s.Offers vs rest ∧ vs.map Value.type = [.int w]) :
    s.unary (Value.asInt? w) f = .error .typeMismatch := by
  unfold unary
  split
  · rfl
  · rename_i a ha
    obtain ⟨v, hv, hread⟩ := Option.bind_eq_some_iff.mp ha
    obtain ⟨rest, ho⟩ := offers_one hv
    rw [Value.asInt?_eq_some_iff.mp hread] at ho
    exact absurd ⟨_, rest, ho, by simp⟩ h

theorem binary_mismatch {f : BitVec w.bits → BitVec w.bits → Except ArithmeticError Value}
    (h : ¬ ∃ vs rest, s.Offers vs rest ∧ vs.map Value.type = [.int w, .int w]) :
    s.binary (Value.asInt? w) f = .error .typeMismatch := by
  unfold binary
  split
  · rename_i a b ha hb
    obtain ⟨x, hx, hreadx⟩ := Option.bind_eq_some_iff.mp ha
    obtain ⟨y, hy, hready⟩ := Option.bind_eq_some_iff.mp hb
    obtain ⟨rest, ho⟩ := offers_two hx hy
    rw [Value.asInt?_eq_some_iff.mp hreadx, Value.asInt?_eq_some_iff.mp hready] at ho
    exact absurd ⟨_, rest, ho, by simp⟩ h
  · rfl

end OperandStack

/-! ## Instructions -/

namespace Value

variable {v : Value} {p : Prop} {w : Width}

/-- The integer one if something holds and zero if not. -/
def Tells (v : Value) (p : Prop) : Prop := (p ∧ v = .i32 1) ∨ (¬ p ∧ v = .i32 0)

theorem tells_iff {b : Bool} (h : b = true ↔ p) : v.Tells p ↔ ofBool b = v := by
  unfold Tells ofBool
  rw [← h]
  cases b <;> simp [eq_comm]

theorem type_eq_int_iff : v.type = .int w ↔ ∃ b, v = int w b := by
  cases w <;> cases v <;> simp [type, ValueType.int, int]

theorem int_inj {b b' : BitVec w.bits} : int w b = int w b' ↔ b = b' := by
  refine ⟨fun h => ?_, congrArg _⟩
  have hread := asInt?_int w b
  rw [h, asInt?_int] at hread
  exact (Option.some.inj hread).symm

end Value

theorem Width.bits_pos (w : Width) : 0 < w.bits := by
  cases w <;> decide

namespace NumericOp

/-- The types of the operands of an integer operation, the deepest one first. Conversions, also
those from integers, are none. -/
def integer? : NumericOp → Option (List ValueType)
  | .eqz w | .intUnary w _ => some [.int w]
  | .intCompare w _ | .intBinary w _ => some [.int w, .int w]
  | _ => none

/-- **The value that an integer operation makes of its operands.** -/
def Computes (op : NumericOp) (vs : List Value) (v : Value) : Prop :=
  match op with
  | .eqz w => ∃ a, vs = [.int w a] ∧ v.Tells (a.toNat = 0)
  | .intCompare w r => ∃ a b, vs = [.int w a, .int w b] ∧ v.Tells (r.Relates a b)
  | .intUnary w op => ∃ a c, vs = [.int w a] ∧ v = .int w c ∧ c.toNat = op.counted w.bits a.toNat
  | .intBinary w op => ∃ a b c, vs = [.int w a, .int w b] ∧ v = .int w c ∧ op.Gives a b c
  | _ => False

/-- The fault that an integer operation is for its operands. -/
def Fails (op : NumericOp) (vs : List Value) (f : Fault) : Prop :=
  match op with
  | .intBinary w op =>
    ∃ a b e, vs = [.int w a, .int w b] ∧ op.FailsWith a b e ∧ f = .ofArithmetic e
  | _ => False

variable {op : NumericOp} {s : OperandStack} {vs rest : List Value} {types : List ValueType}

/-- A result describes what an operation comes to. -/
structure Settles (op : NumericOp) (vs : List Value) (r : Except ArithmeticError Value) : Prop where
  ok : ∀ v, op.Computes vs v ↔ r = .ok v
  error : ∀ f, op.Fails vs f ↔ ∃ e, r = .error e ∧ f = .ofArithmetic e

theorem settles_eqz {w : Width} (a : BitVec w.bits) :
    Settles (.eqz w) [.int w a] (.ok (.ofBool (a = 0))) where
  ok v := by
    have hzero : decide (a = 0) = true ↔ a.toNat = 0 := by
      rw [decide_eq_true_iff, ← BitVec.toNat_inj]
      simp
    simp [Computes, Value.int_inj, Value.tells_iff hzero]
  error f := by simp [Fails]

theorem settles_compare {w : Width} (r : IntRelation) (a b : BitVec w.bits) :
    Settles (.intCompare w r) [.int w a, .int w b] (.ok (.ofBool (r.holds a b))) where
  ok v := by simp [Computes, Value.int_inj, ← Value.tells_iff (r.holds_iff a b)]
  error f := by simp [Fails]

theorem settles_unary {w : Width} (op : IntUnary) (a : BitVec w.bits) :
    Settles (.intUnary w op) [.int w a] (.ok (.int w (op.apply a))) where
  ok v := by
    simp [Computes, Value.int_inj, ← op.toNat_apply, BitVec.toNat_inj, eq_comm]
  error f := by simp [Fails]

theorem settles_binary {w : Width} (op : IntBinary) (a b : BitVec w.bits) :
    Settles (.intBinary w op) [.int w a, .int w b] ((op.apply a b).map (.int w)) where
  ok v := by
    simp only [Computes, List.cons.injEq, and_true, Value.int_inj,
      ← IntBinary.apply_eq_ok_iff w.bits_pos]
    constructor
    · rintro ⟨_, _, c, ⟨rfl, rfl⟩, rfl, happly⟩
      rw [happly]
      rfl
    · intro h
      cases happly : op.apply a b with
      | error e => exact absurd (happly ▸ h) nofun
      | ok c =>
        rw [happly] at h
        cases h
        exact ⟨a, b, c, ⟨rfl, rfl⟩, rfl, happly⟩
  error f := by
    simp only [Fails, List.cons.injEq, and_true, Value.int_inj,
      ← IntBinary.apply_eq_error_iff w.bits_pos]
    constructor
    · rintro ⟨_, _, e, ⟨rfl, rfl⟩, happly, rfl⟩
      exact ⟨e, by rw [happly]; rfl, rfl⟩
    · rintro ⟨e, he, rfl⟩
      cases happly : op.apply a b with
      | error e' =>
        rw [happly] at he
        cases he
        exact ⟨a, b, e, ⟨rfl, rfl⟩, happly, rfl⟩
      | ok c => exact absurd (happly ▸ he) nofun

/-- **Operands of the right types are replaced by what the operation comes to.** -/
theorem run_of_offers (hop : op.integer? = some types) (ho : s.Offers vs rest)
    (ht : vs.map Value.type = types) :
    ∃ r, Settles op vs r ∧ op.run s = s.settle types.length r := by
  have hone {w : Width} (h : vs.map Value.type = [.int w]) : ∃ a, vs = [.int w a] := by
    obtain ⟨v, rfl, hv⟩ := List.map_eq_singleton_iff.mp h
    obtain ⟨a, rfl⟩ := Value.type_eq_int_iff.mp hv
    exact ⟨a, rfl⟩
  have htwo {w : Width} (h : vs.map Value.type = [.int w, .int w]) :
      ∃ a b, vs = [.int w a, .int w b] := by
    obtain ⟨v, rest, rfl, hv, hrest⟩ := List.map_eq_cons_iff.mp h
    obtain ⟨v', rfl, hv'⟩ := List.map_eq_singleton_iff.mp hrest
    obtain ⟨a, rfl⟩ := Value.type_eq_int_iff.mp hv
    obtain ⟨b, rfl⟩ := Value.type_eq_int_iff.mp hv'
    exact ⟨a, b, rfl⟩
  cases op with
  | eqz w =>
    cases hop
    obtain ⟨a, rfl⟩ := hone ht
    refine ⟨_, settles_eqz a, ?_⟩
    simp only [run, OperandStack.unary_of_offers _ ho]
    rfl
  | intUnary w op =>
    cases hop
    obtain ⟨a, rfl⟩ := hone ht
    refine ⟨_, settles_unary op a, ?_⟩
    simp only [run, OperandStack.unary_of_offers _ ho]
    rfl
  | intCompare w r =>
    cases hop
    obtain ⟨a, b, rfl⟩ := htwo ht
    refine ⟨_, settles_compare r a b, ?_⟩
    simp only [run, OperandStack.binary_of_offers _ ho]
    rfl
  | intBinary w op =>
    cases hop
    obtain ⟨a, b, rfl⟩ := htwo ht
    refine ⟨_, settles_binary op a b, ?_⟩
    simp only [run, OperandStack.binary_of_offers _ ho]
    rfl
  | _ => cases hop

theorem run_mismatch (hop : op.integer? = some types)
    (h : ¬ ∃ vs rest, s.Offers vs rest ∧ vs.map Value.type = types) :
    op.run s = .error .typeMismatch := by
  cases op with
  | eqz w | intUnary w op =>
    cases hop
    simp only [run]
    exact OperandStack.unary_mismatch h
  | intCompare w r | intBinary w op =>
    cases hop
    simp only [run]
    exact OperandStack.binary_mismatch h
  | _ => cases hop

/-- A rotation to the right takes back one to the left by the same count. -/
theorem computes_rotr_of_rotl {w : Width} {x k y : Value}
    (h : (intBinary w .rotl).Computes [x, k] y) : (intBinary w .rotr).Computes [y, k] x := by
  obtain ⟨a, b, c, hvs, rfl, hg⟩ := h
  cases hvs
  exact ⟨c, b, a, rfl, rfl, fun i hi => (hg i hi).symm⟩

end NumericOp

namespace Machine

variable {setup : Setup} {m : Machine} {op : NumericOp} {types : List ValueType}

/-- **Integer instructions compute integer arithmetic.** On operands of its types an integer
operation is the fault that its rule names, or they are replaced by the one value that the rule
gives; there is a fault or a value, and never both. Without such operands above the floor it is a
type mismatch. A rotation to the right takes back one to the left, by any count. -/
theorem integer_dispatch (hf : m.frames ≠ []) (hi : fetch? setup m.ip = some (.numeric op))
    (hop : op.integer? = some types) (watch : Breakpoints) :
    (∀ vs rest, m.stack.Offers vs rest → vs.map Value.type = types →
      (∀ v, op.Computes vs v ↔
        ∃ m', m.dispatch setup watch = .next m' ∧ m.GoneOn (v :: rest) m.memories m') ∧
      (∀ f, op.Fails vs f ↔ m.dispatch setup watch = .fault f m) ∧
      ((∃ v, op.Computes vs v) ∨ ∃ f, op.Fails vs f)) ∧
    ((¬ ∃ vs rest, m.stack.Offers vs rest ∧ vs.map Value.type = types) →
      m.dispatch setup watch = .fault .typeMismatch m) ∧
    ∀ w x k y, (NumericOp.intBinary w .rotl).Computes [x, k] y →
      (NumericOp.intBinary w .rotr).Computes [y, k] x := by
  have hdispatch : m.dispatch setup watch = m.withStack (op.run m.stack) :=
    dispatch_eq_execute hf hi
  rw [hdispatch]
  refine ⟨fun vs rest ho ht => ?_, fun hnone => ?_, fun w x k y => NumericOp.computes_rotr_of_rotl⟩
  · obtain ⟨r, hr, hrun⟩ := NumericOp.run_of_offers hop ho ht
    rw [hrun, ← ht, List.length_map]
    simp only [hr.ok, hr.error]
    cases r with
    | ok v =>
      have hgone := goneOn_replace ho v
      refine ⟨fun v' => ⟨?_, ?_⟩, fun f => ?_, .inl ⟨v, rfl⟩⟩
      · intro hv
        cases hv
        exact ⟨_, rfl, hgone⟩
      · rintro ⟨m', hm', h'⟩
        cases hm'
        have hvalues := hgone.values.symm.trans h'.values
        cases hvalues
        rfl
      · exact iff_of_false (fun ⟨e, he, _⟩ => absurd he nofun) nofun
    | error e =>
      refine ⟨fun v => iff_of_false nofun fun ⟨m', hm', _⟩ => absurd hm' nofun, fun f => ?_,
        .inr ⟨_, e, rfl, rfl⟩⟩
      constructor
      · rintro ⟨e', he, rfl⟩
        cases he
        rfl
      · intro h
        cases h
        exact ⟨e, rfl, rfl⟩
  · rw [NumericOp.run_mismatch hop hnone]
    rfl

/-- A function that divides. -/
def dividing : Setup where
  module :=
    { types := #[⟨[], []⟩]
      functions := #[.defined 0 [] #[.numeric (.intBinary .w32 .divS), .blockEnd]] }
  limits := {}
  bridge := .unavailable

/-- It, about to divide minus seven by two. -/
def aboutToDivide : Machine where
  ip := ⟨0, 0⟩
  stack := ((OperandStack.empty 8).restore (.i32 (-7))).restore (.i32 2)
  frames := [⟨0, #[], ⟨0, 0⟩, 0, []⟩]
  globals := #[]
  memories := #[]
  tables := #[]

/-- The quotient is rounded toward zero. -/
theorem integer_dispatch_dividing :
    aboutToDivide.frames ≠ [] ∧
      fetch? dividing aboutToDivide.ip = some (.numeric (.intBinary .w32 .divS)) ∧
      NumericOp.integer? (.intBinary .w32 .divS) = some [.i32, .i32] ∧
      ∃ m', aboutToDivide.dispatch dividing {} = .next m' ∧
        aboutToDivide.GoneOn [.i32 (-3)] #[] m' := by
  have hf : aboutToDivide.frames ≠ [] := by decide
  have hi : fetch? dividing aboutToDivide.ip = some (.numeric (.intBinary .w32 .divS)) := rfl
  have ho : aboutToDivide.stack.Offers [.i32 (-7), .i32 2] [] := ⟨rfl, by decide⟩
  have hquotient : TruncatedDivision (-7) 2 (-3) (-1) :=
    ⟨by decide, by decide, by decide, by decide⟩
  have hcomputes : (NumericOp.intBinary .w32 .divS).Computes [.i32 (-7), .i32 2] (.i32 (-3)) :=
    ⟨-7, 2, -3, rfl, rfl, -1, hquotient⟩
  exact ⟨hf, hi, rfl, (((integer_dispatch hf hi rfl {}).1 _ _ ho rfl).1 _).mp hcomputes⟩

end Machine

end WasmDebugger
