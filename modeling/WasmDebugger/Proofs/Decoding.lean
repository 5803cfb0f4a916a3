import Mathlib.Algebra.Group.Nat.Defs
import WasmDebugger.Binary.Module

/-!
# Decoders

Laws of the ways to make a decoder of others.

* `Decoder.Yields`: what is true of whatever a decoder gives, on any bytes.
* `Decoder.Reads`: certain bytes give a certain value, wherever they stand. `Decoder.Fills` says so
  of a window that has nothing else in it.

Sizes and counts are 32-bit numbers, so both speak of fewer than `sizeLimit` bytes.
-/

namespace WasmDebugger.Decoder

/-! ## What decoders give -/

/-- Whatever the decoder gives has the property. -/
def Yields {α : Type} (d : Decoder α) (P : α → Prop) : Prop :=
  ∀ c a c', d c = .ok (a, c') → P a

variable {α β : Type} {d : Decoder α} {f : α → Decoder β} {P : α → Prop} {Q : β → Prop}

theorem pure_eq_ok_iff {a b : α} {c c' : Cursor} :
    (pure a : Decoder α) c = .ok (b, c') ↔ b = a ∧ c' = c := by
  constructor
  · rintro ⟨⟩
    exact ⟨rfl, rfl⟩
  · rintro ⟨rfl, rfl⟩
    rfl

theorem fail_ne_ok {cause : LoadCause} {c : Cursor} {r : α × Cursor} :
    (fail cause : Decoder α) c ≠ .ok r := nofun

/-- A sequence of two decoders gives what the second gives behind the first. -/
theorem bind_eq_ok_iff {c c' : Cursor} {b : β} :
    (d >>= f) c = .ok (b, c') ↔ ∃ a middle, d c = .ok (a, middle) ∧ f a middle = .ok (b, c') := by
  show (d c >>= fun r => f r.1 r.2) = .ok (b, c') ↔ _
  cases d c with
  | error e => exact iff_of_false nofun fun ⟨_, _, h, _⟩ => nomatch h
  | ok r => exact ⟨fun h => ⟨r.1, r.2, rfl, h⟩, fun ⟨_, _, h, h'⟩ => by cases h; exact h'⟩

theorem yields_pure {a : α} (h : P a) : Yields (pure a) P := by
  intro c b c' hb
  cases hb
  exact h

theorem yields_fail {cause : LoadCause} : Yields (fail cause) P := by
  intro c b c' hb
  cases hb

theorem Yields.mono {P' : α → Prop} (h : Yields d P) (hp : ∀ a, P a → P' a) : Yields d P' :=
  fun c a c' ha => hp a (h c a c' ha)

theorem Yields.bind (h : Yields d P) (hf : ∀ a, P a → Yields (f a) Q) : Yields (d >>= f) Q := by
  intro c b c' hb
  obtain ⟨a, middle, ha, hb⟩ := bind_eq_ok_iff.mp hb
  exact hf a (h c a middle ha) middle b c' hb

/-- What comes first does not matter. -/
theorem yields_of_rest (hf : ∀ a, Yields (f a) Q) : Yields (d >>= f) Q :=
  Yields.bind (P := fun _ => True) (fun _ _ _ _ => trivial) fun a _ => hf a

theorem yields_require {condition : Bool} {cause : LoadCause} :
    Yields (require condition cause) fun _ => condition = true := by
  intro c a c' ha
  unfold require at ha
  split at ha
  · assumption
  · cases ha

theorem Yields.times (h : Yields d P) (n : Nat) : Yields (times d n) fun l => ∀ a ∈ l, P a := by
  induction n with
  | zero => exact yields_pure fun _ hm => absurd hm List.not_mem_nil
  | succ n ih =>
    refine h.bind fun a ha => ih.bind fun l hl => yields_pure ?_
    exact List.forall_mem_cons.mpr ⟨ha, hl⟩

theorem Yields.vector (h : Yields d P) : Yields (vector d) fun l => ∀ a ∈ l, P a :=
  yields_of_rest fun n => h.times n

theorem Yields.within (h : Yields d P) (size : Nat) (mismatch : LoadCause) :
    Yields (within size mismatch d) P := by
  intro c a c' ha
  unfold Decoder.within at ha
  split at ha
  · cases ha
  · split at ha
    · cases ha
    · rename_i hd
      cases ha
      exact h _ _ _ hd
    · cases ha

theorem Yields.upTo (h : Yields d P) (n : Nat) : Yields (upTo d n) fun l => ∀ a ∈ l, P a := by
  induction n with
  | zero => exact yields_pure fun _ hm => absurd hm List.not_mem_nil
  | succ n ih =>
    refine yields_of_rest fun ended => ?_
    split
    · exact yields_pure fun _ hm => absurd hm List.not_mem_nil
    · refine h.bind fun a ha => ih.bind fun l hl => yields_pure ?_
      exact List.forall_mem_cons.mpr ⟨ha, hl⟩

theorem Yields.untilEnd (h : Yields d P) : Yields (untilEnd d) fun l => ∀ a ∈ l, P a :=
  fun c => h.upTo c.rest.length c

/-! ## What decoders read -/

/-- No size that is written is as large. -/
def sizeLimit : Nat := 2 ^ 32

/-- From such bytes, whatever comes behind them, the decoder takes them and gives the value. -/
def Reads {α : Type} (d : Decoder α) (bytes : List UInt8) (a : α) : Prop :=
  bytes.length < sizeLimit →
    ∀ offset rest, d ⟨offset, bytes ++ rest⟩ = .ok (a, ⟨offset + bytes.length, rest⟩)

/-- From a window of such bytes the decoder takes all and gives the value. -/
def Fills {α : Type} (d : Decoder α) (bytes : List UInt8) (a : α) : Prop :=
  bytes.length < sizeLimit →
    ∀ offset, d ⟨offset, bytes⟩ = .ok (a, ⟨offset + bytes.length, []⟩)

variable {a : α} {b : β} {bytes more : List UInt8}

theorem Reads.fills (h : Reads d bytes a) : Fills d bytes a := by
  intro hsize offset
  have := h hsize offset []
  rwa [List.append_nil] at this

theorem bind_ok {c c' : Cursor} (h : d c = .ok (a, c')) : (d >>= f) c = f a c' := by
  show (d c >>= fun r => f r.1 r.2) = f a c'
  rw [h]
  rfl

theorem reads_pure : Reads (pure a) [] a := fun _ _ _ => rfl

theorem Reads.bind (h : Reads d bytes a) (hf : Reads (f a) more b) :
    Reads (d >>= f) (bytes ++ more) b := by
  intro hsize offset rest
  rw [List.length_append] at hsize ⊢
  rw [List.append_assoc, bind_ok (h (by omega) offset (more ++ rest)), hf (by omega),
    Nat.add_assoc]

theorem Reads.fills_bind (h : Reads d bytes a) (hf : Fills (f a) more b) :
    Fills (d >>= f) (bytes ++ more) b := by
  intro hsize offset
  rw [List.length_append] at hsize ⊢
  rw [bind_ok (h (by omega) offset more), hf (by omega), Nat.add_assoc]

/-- Nothing is read behind the last value. -/
theorem Reads.map {g : α → β} (h : Reads d bytes a) :
    Reads (d >>= fun a => pure (g a)) bytes (g a) := by
  have := h.bind (f := fun a => pure (g a)) (reads_pure (a := g a))
  rwa [List.append_nil] at this

/-- Nothing is left to read behind a full window. -/
theorem Fills.bind (h : Fills d bytes a) (hf : Reads (f a) [] b) : Fills (d >>= f) bytes b := by
  intro hsize offset
  rw [bind_ok (h hsize offset)]
  exact hf (by decide) (offset + bytes.length) []

theorem Fills.map {g : α → β} (h : Fills d bytes a) :
    Fills (d >>= fun a => pure (g a)) bytes (g a) :=
  h.bind reads_pure

theorem reads_byte (b : UInt8) : Reads byte [b] b := fun _ _ _ => rfl

theorem Reads.byte_bind {f : UInt8 → Decoder β} {first : UInt8} (h : Reads (f first) bytes b) :
    Reads (byte >>= f) (first :: bytes) b :=
  (reads_byte first).bind h

theorem reads_require {condition : Bool} {cause : LoadCause} (h : condition = true) :
    Reads (require condition cause) [] () := by
  subst h
  exact reads_pure

theorem Reads.require_bind {condition : Bool} {cause : LoadCause} {f : Unit → Decoder β}
    (hc : condition = true) (h : Reads (f ()) bytes b) :
    Reads (require condition cause >>= f) bytes b :=
  (reads_require hc).bind h

/-- A value is checked and given as it is. -/
theorem Reads.checked {condition : α → Bool} {cause : α → LoadCause} {g : α → β}
    (h : Reads d bytes a) (hc : condition a = true) :
    Reads (d >>= fun a => require (condition a) (cause a) >>= fun _ => pure (g a)) bytes (g a) := by
  have hread := h.bind (f := fun a => require (condition a) (cause a) >>= fun _ => pure (g a))
    (Reads.require_bind hc reads_pure)
  rwa [List.append_nil] at hread

theorem reads_bytes (content : List UInt8) : Reads (Decoder.bytes content.length) content content := by
  intro _ offset rest
  unfold Decoder.bytes
  rw [if_neg (by simp)]
  simp

theorem fills_remainder (content : List UInt8) : Fills remainder content content :=
  fun _ _ => rfl

theorem Fills.within (h : Fills d bytes a) (mismatch : LoadCause) :
    Reads (within bytes.length mismatch d) bytes a := by
  intro hsize offset rest
  unfold Decoder.within
  rw [if_neg (by simp)]
  simp [h hsize offset]

/-! ### Repetition -/

section Repetition

variable {item : Decoder α} {enc : α → List UInt8} {items : List α}

theorem reads_times (h : ∀ a ∈ items, Reads item (enc a) a) :
    Reads (times item items.length) (items.flatMap enc) items := by
  induction items with
  | nil => exact reads_pure
  | cons a items ih =>
    obtain ⟨hfirst, hrest⟩ := List.forall_mem_cons.mp h
    exact hfirst.bind (ih hrest).map

theorem length_le_flatMap (hne : ∀ a ∈ items, enc a ≠ []) :
    items.length ≤ (items.flatMap enc).length := by
  induction items with
  | nil => exact Nat.le_refl _
  | cons a items ih =>
    obtain ⟨hfirst, hrest⟩ := List.forall_mem_cons.mp hne
    have := List.length_pos_iff.mpr hfirst
    have := ih hrest
    rw [List.flatMap_cons, List.length_append, List.length_cons]
    omega

theorem fills_upTo (h : ∀ a ∈ items, Reads item (enc a) a) (hne : ∀ a ∈ items, enc a ≠ [])
    {n : Nat} (hn : items.length ≤ n) : Fills (upTo item n) (items.flatMap enc) items := by
  induction items generalizing n with
  | nil => cases n <;> exact fun _ _ => rfl
  | cons a items ih =>
    obtain ⟨hfirst, hrest⟩ := List.forall_mem_cons.mp h
    obtain ⟨hne, hnes⟩ := List.forall_mem_cons.mp hne
    cases n with
    | zero => exact absurd hn (by simp)
    | succ n =>
      have hlast := (ih hrest hnes (Nat.le_of_succ_le_succ hn)).map (g := fun l => a :: l)
      intro hsize offset
      have hend : (List.flatMap enc (a :: items)).isEmpty = false := by
        simpa using fun he => absurd he hne
      rw [upTo, bind_ok (d := atEnd) rfl, if_neg (ne_true_of_eq_false hend)]
      exact hfirst.fills_bind (f := fun a => upTo item n >>= fun l => pure (a :: l)) hlast
        hsize offset

theorem fills_untilEnd (h : ∀ a ∈ items, Reads item (enc a) a) (hne : ∀ a ∈ items, enc a ≠ []) :
    Fills (untilEnd item) (items.flatMap enc) items :=
  fun hsize offset => fills_upTo h hne (length_le_flatMap hne) hsize offset

end Repetition

end WasmDebugger.Decoder
