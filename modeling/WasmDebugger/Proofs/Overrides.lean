import Mathlib.Data.List.TakeWhile
import WasmDebugger.Config
import WasmDebugger.Proofs.IntegerLiterals

/-!
# Settings from the environment

Which texts of the environment's variables set a call depth or a time limit, and to what.

* `Numeral.NumberText`: white space, a sign and decimal digits. Such a text up to the first NUL is
  what is read as a number (`leading?_isEnd_iff`).
* `Config.DepthText`: those of them that are call depths; a minus counts modulo `2 ^ 64`.
* **`overrides_read_iff`**: the settings are the ones that the texts spell, and otherwise they stay.
  A time limit is spelled in digits alone, a call depth also with white space or a sign in front.
-/

namespace WasmDebugger

namespace Numeral

variable {text rest : List Char} {ds : List Nat} {negative : Bool} {v : Nat}

/-! ## Texts up to their end -/

/-- What stands in front of the first NUL. -/
def untilEnd (text : List Char) : List Char := text.takeWhile (· ≠ '\x00')

theorem untilEnd_cons_of_ne {c : Char} (h : c ≠ '\x00') (rest : List Char) :
    untilEnd (c :: rest) = c :: untilEnd rest :=
  List.takeWhile_cons_of_pos (by simpa using h)

theorem isEnd_iff : isEnd text = true ↔ untilEnd text = [] := by
  cases text with
  | nil => exact iff_of_true rfl rfl
  | cons c rest =>
    unfold isEnd
    by_cases hc : c = '\x00'
    · exact iff_of_true (by simpa using hc) (by rw [hc]; rfl)
    · exact iff_of_false (by simpa using hc) (by simp [untilEnd_cons_of_ne hc])

theorem spanDigits_untilEnd (text : List Char) : spanDigits 10 (untilEnd text) =
    ((spanDigits 10 text).1, untilEnd (spanDigits 10 text).2) := by
  induction text with
  | nil => rfl
  | cons c rest ih =>
    by_cases hc : c = '\x00'
    · rw [hc]
      rfl
    · rw [untilEnd_cons_of_ne hc]
      unfold spanDigits
      cases digit? 10 c with
      | none => rw [untilEnd_cons_of_ne hc]
      | some d => rw [ih]

theorem dropWhile_untilEnd (text : List Char) :
    (untilEnd text).dropWhile Octets.isSpace = untilEnd (text.dropWhile Octets.isSpace) := by
  induction text with
  | nil => rfl
  | cons c rest ih =>
    by_cases hc : c = '\x00'
    · rw [hc]
      rfl
    · rw [untilEnd_cons_of_ne hc]
      by_cases hspace : Octets.isSpace c = true
      · rw [List.dropWhile_cons_of_pos hspace, List.dropWhile_cons_of_pos hspace, ih]
      · rw [List.dropWhile_cons_of_neg hspace, List.dropWhile_cons_of_neg hspace,
          untilEnd_cons_of_ne hc]

theorem splitSign_untilEnd (text : List Char) :
    splitSign (untilEnd text) = ((splitSign text).1, untilEnd (splitSign text).2) := by
  cases text with
  | nil => rfl
  | cons c rest =>
    by_cases hc : c = '\x00'
    · rw [hc]
      rfl
    · rw [untilEnd_cons_of_ne hc]
      by_cases hminus : c = '-'
      · rw [hminus]
        rfl
      · by_cases hplus : c = '+'
        · rw [hplus]
          rfl
        · have hnone : ∀ rest, splitSign (c :: rest) = (false, c :: rest) := fun rest =>
            show splitSign ([] ++ c :: rest) = (false, c :: rest) from
              splitSign_append .none ⟨by simpa using hminus, by simpa using hplus⟩
          rw [hnone, hnone, untilEnd_cons_of_ne hc]

/-! ## Numbers -/

/-- **White space, an optional sign and decimal digits**, with the sign and the number. -/
inductive NumberText : List Char → Bool → Nat → Prop where
  | intro {blanks sign digits : List Char} {negative : Bool} {v : Nat}
      (hblanks : ∀ c ∈ blanks, Octets.isSpace c = true) (hsign : Sign sign negative)
      (hdigits : Denotes 10 digits v) :
      NumberText (blanks ++ (sign ++ digits)) negative v

theorem isSpace_digitChar : ∀ d < 10, Octets.isSpace d.digitChar = false ∧
    Octets.isSpace d.digitChar.toUpper = false := by decide

/-- A number does not start with white space. -/
theorem dropWhile_number {sign digits : List Char} (hsign : Sign sign negative)
    (hdigits : Denotes 10 digits v) :
    (sign ++ digits).dropWhile Octets.isSpace = sign ++ digits := by
  cases hsign with
  | plus | minus => rfl
  | none =>
    obtain ⟨hne, ds, hall, -⟩ := hdigits
    cases hall with
    | nil => exact absurd rfl hne
    | @cons c d rest _ hd _ =>
      have hspace : Octets.isSpace c = false := by
        rcases hd with ⟨hlt, rfl | rfl⟩
        · exact (isSpace_digitChar d hlt).1
        · exact (isSpace_digitChar d hlt).2
      exact List.dropWhile_cons_of_neg (by simp [hspace])

/-- **A whole text is read as the number that it spells.** -/
theorem whole_number_iff : (splitSign (text.dropWhile Octets.isSpace)).1 = negative ∧
    natural? 10 (splitSign (text.dropWhile Octets.isSpace)).2 = some v ↔
      NumberText text negative v := by
  constructor
  · rintro ⟨rfl, hnatural⟩
    obtain ⟨sign, hsign, htext⟩ := exists_sign (text.dropWhile Octets.isSpace)
    have hblanks : ∀ c ∈ text.takeWhile Octets.isSpace, Octets.isSpace c = true :=
      fun c hc => List.mem_takeWhile_imp hc
    have hnumber :=
      NumberText.intro hblanks hsign ((natural?_eq_some_iff (by decide)).mp hnatural)
    rwa [← htext, List.takeWhile_append_dropWhile] at hnumber
  · rintro ⟨hblanks, hsign, hdigits⟩
    have hsplit := splitSign_append hsign (head?_unsigned .decimal hdigits)
    rw [List.nil_append] at hsplit
    rw [List.dropWhile_append_of_pos hblanks, dropWhile_number hsign hdigits, hsplit]
    exact ⟨rfl, (natural?_eq_some_iff (by decide)).mpr hdigits⟩

/-- What is read off the front is the digits behind white space and a sign. -/
theorem leading?_decimal {number : List Char} {digits : List Nat}
    (hsplit : splitSign (text.dropWhile Octets.isSpace) = (negative, number))
    (hspan : spanDigits 10 number = (digits, rest)) :
    leading? .decimal text =
      if digits = [] then none else some ⟨negative, ofDigits 10 digits, rest⟩ := by
  unfold leading? chooseRadix
  simp only [hsplit, hspan]
  cases digits <;> rfl

/-- What is read off the front is a whole text if nothing is left up to the end. -/
theorem leading?_isEnd_iff : (∃ rest, leading? .decimal text = some ⟨negative, v, rest⟩ ∧
    isEnd rest = true) ↔ NumberText (untilEnd text) negative v := by
  rw [← whole_number_iff, dropWhile_untilEnd, splitSign_untilEnd]
  unfold natural?
  rw [spanDigits_untilEnd]
  rcases hsplit : splitSign (text.dropWhile Octets.isSpace) with ⟨sign, number⟩
  rcases hspan : spanDigits 10 number with ⟨digits, rest⟩
  rw [leading?_decimal hsplit hspan]
  cases digits with
  | nil => simp
  | cons d digits =>
    cases hend : untilEnd rest with
    | nil => simp [isEnd_iff, hend]
    | cons _ _ => simp [isEnd_iff, hend]

/-! ### Digits alone -/

theorem isDigit_digitChar_lt : ∀ d < 10, d.digitChar.isDigit = true ∧
    d.digitChar.toUpper.isDigit = true := by decide

/-- A number in digits alone starts with one. -/
theorem Denotes.exists_head (h : Denotes 10 text v) :
    ∃ c rest, text = c :: rest ∧ c.isDigit = true := by
  obtain ⟨hne, ds, hall, -⟩ := h
  cases hall with
  | nil => exact absurd rfl hne
  | @cons c d rest _ hd _ =>
    refine ⟨c, rest, rfl, ?_⟩
    rcases hd with ⟨hlt, rfl | rfl⟩
    · exact (isDigit_digitChar_lt d hlt).1
    · exact (isDigit_digitChar_lt d hlt).2

theorem isSpace_of_isDigit {c : Char} (h : c.isDigit = true) : Octets.isSpace c = false := by
  obtain ⟨hlow, -⟩ := Bool.and_eq_true_iff.mp h
  have hlow : 48 ≤ c.toNat := UInt32.le_iff_toNat_le.mp (of_decide_eq_true hlow)
  have hblank : c ≠ ' ' := by
    rintro rfl
    exact absurd hlow (by decide)
  simp [Octets.isSpace, hblank]
  omega

/-- **A number that starts with a digit is in digits alone.** -/
theorem NumberText.denotes {c : Char} (h : NumberText (c :: rest) negative v)
    (hc : c.isDigit = true) : negative = false ∧ Denotes 10 (c :: rest) v := by
  generalize htext : c :: rest = text at h
  obtain @⟨blanks, _, _, _, _, hblanks, hsign, hdigits⟩ := h
  cases blanks with
  | cons b blanks =>
    obtain ⟨rfl, -⟩ := List.cons.inj htext
    have hspace := hblanks c List.mem_cons_self
    rw [isSpace_of_isDigit hc] at hspace
    cases hspace
  | nil =>
    cases hsign with
    | none => exact ⟨rfl, hdigits⟩
    | plus | minus =>
      obtain ⟨rfl, -⟩ := List.cons.inj htext
      exact absurd hc (by decide)

theorem Denotes.numberText (h : Denotes 10 text v) : NumberText text false v :=
  @NumberText.intro [] [] text false v (by simp) .none h

end Numeral

/-! ## Settings -/

namespace Config

open Numeral

variable {text : List Char} {n : Nat}

/-- **The texts of call depths**: numbers from 1 to `2 ^ 32 - 1`, or such that are negative and
reach one of these modulo `2 ^ 64`. -/
def DepthText (text : List Char) (n : Nat) : Prop :=
  ∃ negative v, NumberText text negative v ∧ 0 < n ∧ n ≤ maxSetting ∧
    if negative then v + n = 2 ^ 64 else v = n

/-- A magnitude past 64 bits is the largest number. -/
theorem toNat_toUnsigned (negative : Bool) (v : Nat) (rest : List Char) :
    (Leading.toUnsigned ⟨negative, v, rest⟩).toNat =
      if 2 ^ 64 ≤ v then 2 ^ 64 - 1 else if negative then (2 ^ 64 - v) % 2 ^ 64 else v := by
  unfold Leading.toUnsigned
  by_cases hlarge : 2 ^ 64 ≤ v
  · rw [if_pos hlarge, if_pos (show UInt64.size ≤ v from hlarge)]
    decide
  · have hnat : v.toUInt64.toNat = v := UInt64.toNat_ofNat_of_lt' (Nat.lt_of_not_le hlarge)
    rw [if_neg hlarge, if_neg (show ¬ UInt64.size ≤ v from hlarge)]
    cases negative with
    | false => simpa using hnat
    | true => simp [hnat]

theorem toUnsigned_iff {negative : Bool} {v : Nat} (rest : List Char) (hn : 0 < n)
    (hmax : n ≤ maxSetting) : (Leading.toUnsigned ⟨negative, v, rest⟩).toNat = n ↔
      if negative then v + n = 2 ^ 64 else v = n := by
  have hsmall : n < 2 ^ 32 := Nat.lt_of_le_of_lt hmax (by decide)
  rw [toNat_toUnsigned]
  cases negative with
  | false =>
    simp only [Bool.false_eq_true, if_false]
    split <;> omega
  | true =>
    simp only [if_true]
    split <;> omega

/-- **A call depth is read from the texts of one**, and every other text is refused. -/
theorem parseDepth?_eq_some_iff {text : String} :
    parseDepth? text = some n ↔ DepthText (untilEnd text.toList) n := by
  unfold parseDepth? DepthText
  constructor
  · intro h
    split at h
    · cases h
    · rename_i number hnumber
      obtain ⟨negative, v, rest⟩ := number
      simp only [Option.ite_none_right_eq_some, Bool.and_eq_true, decide_eq_true_eq] at h
      obtain ⟨⟨⟨hend, hn⟩, hmax⟩, hdepth⟩ := h
      cases hdepth
      exact ⟨negative, v, leading?_isEnd_iff.mp ⟨rest, hnumber, hend⟩, hn, hmax,
        (toUnsigned_iff rest hn hmax).mp rfl⟩
  · rintro ⟨negative, v, hnumber, hn, hmax, hv⟩
    obtain ⟨rest, hleading, hend⟩ := leading?_isEnd_iff.mpr hnumber
    have hdepth := (toUnsigned_iff rest hn hmax).mpr hv
    rw [hleading]
    simp [hdepth, hend, hn, hmax]

/-- **A time limit is read from digits alone**, and every other text is refused. -/
theorem parseTimeout?_eq_some_iff {text : String} :
    parseTimeout? text = some n ↔ Denotes 10 (untilEnd text.toList) n ∧ n ≤ maxSetting := by
  unfold parseTimeout?
  cases htext : text.toList with
  | nil => exact iff_of_false (by simp) fun h => h.1.1 rfl
  | cons c rest =>
    by_cases hc : c.isDigit = true
    · have hnul : c ≠ '\x00' := by
        rintro rfl
        exact absurd hc (by decide)
      simp only [hc, if_true]
      constructor
      · intro h
        split at h
        · cases h
        · rename_i number hnumber
          obtain ⟨negative, v, end'⟩ := number
          simp only [Option.ite_none_right_eq_some, Bool.and_eq_true, decide_eq_true_eq] at h
          obtain ⟨⟨hend, hmax⟩, hlimit⟩ := h
          have hspelled := leading?_isEnd_iff.mp ⟨end', hnumber, hend⟩
          rw [untilEnd_cons_of_ne hnul] at hspelled ⊢
          obtain ⟨rfl, hdigits⟩ := hspelled.denotes hc
          cases hlimit
          rw [toNat_toUnsigned] at hmax ⊢
          split at hmax
          · exact absurd hmax (by decide)
          · rename_i hsmall
            rw [if_neg hsmall]
            exact ⟨hdigits, hmax⟩
      · rintro ⟨hdigits, hmax⟩
        obtain ⟨rest', hleading, hend⟩ := leading?_isEnd_iff.mpr hdigits.numberText
        have hsmall : ¬ 2 ^ 64 ≤ n := Nat.not_le.mpr (Nat.lt_of_le_of_lt hmax (by decide))
        have hlimit := toNat_toUnsigned false n rest'
        rw [if_neg hsmall] at hlimit
        rw [hleading]
        simpa [hend, hlimit] using hmax
    · refine iff_of_false (by simp [hc]) fun h => ?_
      obtain ⟨c', rest', hhead, hdigit⟩ := h.1.exists_head
      have hnul : c ≠ '\x00' := by
        rintro rfl
        cases hhead
      rw [untilEnd_cons_of_ne hnul] at hhead
      obtain ⟨rfl, -⟩ := List.cons.inj hhead
      exact hc hdigit

/-- A call depth that starts with a digit is in digits alone. -/
theorem depthText_and_digit_iff : DepthText text n ∧ text.head?.any Char.isDigit = true ↔
    Denotes 10 text n ∧ 0 < n ∧ n ≤ maxSetting := by
  constructor
  · rintro ⟨⟨negative, v, hnumber, hn, hmax, hv⟩, hdigit⟩
    cases text with
    | nil => simp at hdigit
    | cons c rest =>
      obtain ⟨rfl, hdigits⟩ := hnumber.denotes (by simpa using hdigit)
      obtain rfl : v = n := by simpa using hv
      exact ⟨hdigits, hn, hmax⟩
  · rintro ⟨hdigits, hn, hmax⟩
    obtain ⟨c, rest, rfl, hdigit⟩ := hdigits.exists_head
    exact ⟨⟨false, n, hdigits.numberText, hn, hmax, by simp⟩, by simpa using hdigit⟩

/-! ### The environment -/

theorem applyEnvironment_maxCallDepth (c : Config) (env? : String → Option String) :
    (c.applyEnvironment env?).limits.maxCallDepth =
      ((env? depthVariable).bind parseDepth?).getD c.limits.maxCallDepth := by
  unfold applyEnvironment
  cases (env? traceVariable).bind parseTracing? <;>
    cases (env? depthVariable).bind parseDepth? <;>
    cases (env? timeoutVariable).bind parseTimeout? <;> rfl

theorem applyEnvironment_importTimeout (c : Config) (env? : String → Option String) :
    (c.applyEnvironment env?).importTimeout =
      (((env? timeoutVariable).bind parseTimeout?).map Int.ofNat).getD c.importTimeout := by
  unfold applyEnvironment
  cases (env? traceVariable).bind parseTracing? <;>
    cases (env? depthVariable).bind parseDepth? <;>
    cases (env? timeoutVariable).bind parseTimeout? <;> rfl

/-- **Which texts override a setting, and by what.** Each setting is the number that the text of its
variable spells, and stays as it was when the text spells none. For the time limit these are the
decimal numbers of 32 bits. For the call depth they are the positive ones among these and, with
white space or a sign in front, further texts: what starts with a digit has digits alone. -/
theorem overrides_read_iff (c : Config) (env? : String → Option String) :
    (c.applyEnvironment env?).limits.maxCallDepth =
        ((env? depthVariable).bind parseDepth?).getD c.limits.maxCallDepth ∧
      (c.applyEnvironment env?).importTimeout =
        (((env? timeoutVariable).bind parseTimeout?).map Int.ofNat).getD c.importTimeout ∧
      (∀ (text : String) (n : Nat), parseTimeout? text = some n ↔
        Denotes 10 (untilEnd text.toList) n ∧ n ≤ maxSetting) ∧
      (∀ (text : String) (n : Nat), parseDepth? text = some n ↔
        DepthText (untilEnd text.toList) n) ∧
      ∀ (text : List Char) (n : Nat), DepthText text n ∧ text.head?.any Char.isDigit = true ↔
        Denotes 10 text n ∧ 0 < n ∧ n ≤ maxSetting :=
  ⟨applyEnvironment_maxCallDepth c env?, applyEnvironment_importTimeout c env?,
    fun _ _ => parseTimeout?_eq_some_iff, fun _ _ => parseDepth?_eq_some_iff,
    fun _ _ => depthText_and_digit_iff⟩

/-- Texts that are not decimal digits alone set a call depth: a plus, a blank or a minus stands in
front of the digits. -/
theorem signed_depth_accepted :
    (∀ n, ¬ Denotes 10 (untilEnd "+5".toList) n) ∧
      (({} : Config).applyEnvironment fun name =>
        if name = depthVariable then some "+5" else none).limits.maxCallDepth = 5 ∧
      (({} : Config).applyEnvironment fun name =>
        if name = depthVariable then some " 6" else none).limits.maxCallDepth = 6 ∧
      (({} : Config).applyEnvironment fun name =>
        if name = depthVariable then some "-18446744073709551609" else none).limits.maxCallDepth
          = 7 := by
  refine ⟨fun n h => ?_, by decide +kernel, by decide +kernel, by decide +kernel⟩
  obtain ⟨c, rest, htext, hdigit⟩ := h.exists_head
  have hhead : '+' = c := (List.cons.inj htext).1
  rw [← hhead] at hdigit
  cases hdigit

end Config

end WasmDebugger
