import WasmDebugger.Proofs.ForwardPass
import WasmDebugger.Proofs.Locality

/-!
# Passes that follow decoders

A pass drives its reader inside the input, forwards, and not at all behind an error. As long as
nothing fails it comes where a decoder comes, and its error is the one of the decoder.

* `Trace.Sound`: the reader never left the input, never went back, and kept its first error.
* `Pass.Outcome`: the three ways in which a pass can leave a reader, each with an account of what
  its value has cost. `Pass.Charged`: a pass always comes to such an end.
* `Pass.Charged.bind`, `Pass.Charged.after`, `Pass.Charged.unlessFailed`: passes behind others.
* `Pass.charged_read`, `Pass.charged_giveUp`: the operations of the reader.
-/

namespace WasmDebugger

/-! ## Readers -/

namespace Reader

/-- A reader of the input that stands inside it. -/
structure Inside (input : List UInt8) (r : Reader) : Prop where
  input_eq : r.input = input
  position_le : r.position ≤ r.limit
  limit_le : r.limit ≤ input.length
  offset_le : ∀ e, r.error = some e → e.offset ≤ input.length

/-- The second reader is the first one or a later one: it stands no further back, and when the
first one has failed, it stands where that one stands, with the same error. -/
structure Ahead (r r' : Reader) : Prop where
  position_le : r.position ≤ r'.position
  sticky : ∀ e, r.error = some e → r'.error = some e ∧ r'.position = r.position

variable {r r' r'' : Reader} {input : List UInt8}

theorem Ahead.trans (h : r.Ahead r') (h' : r'.Ahead r'') : r.Ahead r'' where
  position_le := Nat.le_trans h.position_le h'.position_le
  sticky e he := by
    obtain ⟨he', hp⟩ := h.sticky e he
    obtain ⟨he'', hp'⟩ := h'.sticky e he'
    exact ⟨he'', hp'.trans hp⟩

/-- Where a decoder starts that reads on. -/
def cursor (r : Reader) : Cursor := ⟨r.position, r.window⟩

theorem Inside.length_window (h : r.Inside input) : r.window.length = r.remaining := by
  have := h.limit_le
  unfold window remaining
  rw [List.length_take, List.length_drop, h.input_eq]
  omega

theorem Inside.isEmpty_window (h : r.Inside input) : r.window.isEmpty = r.atLimit := by
  have hlen := h.length_window
  unfold remaining at hlen
  unfold atLimit
  rw [Bool.eq_iff_iff, List.isEmpty_iff, ← List.length_eq_zero_iff, decide_eq_true_eq]
  omega

/-- Bytes that have been passed lie before the limit. -/
theorem Inside.cursor_skip {bytes : List UInt8} {c : Cursor} (h : r.Inside input)
    (hc : r.cursor.Passed bytes c) :
    c = ({ r with position := c.offset } : Reader).cursor ∧ r.position + bytes.length = c.offset ∧
      c.offset ≤ r.limit := by
  obtain ⟨offset, rest⟩ := c
  obtain ⟨hrest, hoffset⟩ := hc
  obtain rfl : offset = r.position + bytes.length := hoffset
  have hwindow : r.window = bytes ++ rest := hrest
  have hlen := h.length_window
  have hposition := h.position_le
  unfold remaining at hlen
  rw [hwindow, List.length_append] at hlen
  refine ⟨congrArg (Cursor.mk _) ?_, rfl, show r.position + bytes.length ≤ r.limit by omega⟩
  have hdrop : r.window.drop bytes.length = rest := by rw [hwindow, List.drop_left]
  rw [← hdrop]
  unfold window remaining
  rw [List.drop_take, List.drop_drop]
  exact congrArg (List.take · _) (Nat.sub_sub _ _ _)

/-! ### Reads -/

theorem read_of_error {α : Type} {e : LoadError} (h : r.error = some e) (d : Decoder α) (a : α) :
    r.read d a = (a, r) := by
  unfold read
  split
  · rfl
  · rename_i hok
    exact absurd (hok.symm.trans h) (by simp)

theorem read_of_stop {α : Type} {d : Decoder α} {e : LoadError} (hok : r.error = none)
    (hd : d r.cursor = .error e) (a : α) :
    r.read d a = (a, { r with position := e.offset, error := some e }) := by
  unfold read
  split
  · rename_i herror
    exact absurd (hok.symm.trans herror) (by simp)
  · split
    · rename_i hd'
      cases hd.symm.trans hd'
    · rename_i hd'
      cases hd.symm.trans hd'
      rfl

theorem read_of_value {α : Type} {d : Decoder α} {a' : α} {c : Cursor} (hok : r.error = none)
    (hd : d r.cursor = .ok (a', c)) (a : α) :
    r.read d a = (a', { r with position := c.offset }) := by
  unfold read
  split
  · rename_i herror
    exact absurd (hok.symm.trans herror) (by simp)
  · split
    · rename_i hd'
      cases hd.symm.trans hd'
      rfl
    · rename_i hd'
      cases hd.symm.trans hd'

/-! ### Limits and errors -/

theorem pushLimit_of_lt {size : Nat} (h : r.remaining < size) :
    r.pushLimit size = (r.limit, r.fail .lengthOutOfBounds) := if_pos h

theorem pushLimit_of_le {size : Nat} (h : size ≤ r.remaining) :
    r.pushLimit size = (r.limit, { r with limit := r.position + size }) :=
  if_neg (Nat.not_lt.mpr h)

theorem fail_of_ok {cause : LoadCause} (h : r.error = none) :
    r.fail cause = { r with error := some ⟨cause, r.position⟩ } := by
  unfold fail
  rw [h]

theorem fail_of_error {cause : LoadCause} {e : LoadError} (h : r.error = some e) :
    r.fail cause = r := by
  unfold fail
  rw [h]

theorem Inside.fail (h : r.Inside input) (cause : LoadCause) : (r.fail cause).Inside input := by
  cases herror : r.error with
  | some e => rwa [fail_of_error herror]
  | none =>
    rw [fail_of_ok herror]
    refine ⟨h.input_eq, h.position_le, h.limit_le, fun e he => ?_⟩
    obtain rfl := Option.some.inj he
    exact Nat.le_trans h.position_le h.limit_le

theorem Ahead.refl (r : Reader) : r.Ahead r := ⟨Nat.le_refl _, fun _ he => ⟨he, rfl⟩⟩

/-- Without an error it is enough not to go back. -/
theorem ahead_of_ok (hok : r.error = none) (h : r.position ≤ r'.position) : r.Ahead r' :=
  ⟨h, fun _ he => absurd (hok.symm.trans he) (by simp)⟩

theorem ahead_fail (r : Reader) (cause : LoadCause) : r.Ahead (r.fail cause) := by
  cases herror : r.error with
  | some e =>
    rw [fail_of_error herror]
    exact .refl r
  | none =>
    rw [fail_of_ok herror]
    exact ahead_of_ok herror (Nat.le_refl _)

theorem position_fail (r : Reader) (cause : LoadCause) : (r.fail cause).position = r.position := by
  cases herror : r.error with
  | none => rw [fail_of_ok herror]
  | some e => rw [fail_of_error herror]

theorem ahead_limit (r : Reader) (limit : Nat) : r.Ahead { r with limit := limit } :=
  ⟨Nat.le_refl _, fun _ he => ⟨he, rfl⟩⟩

/-- The window under a limit is the front of the one before. -/
theorem cursor_limit {size : Nat} (h : size ≤ r.remaining) :
    ({ r with limit := r.position + size } : Reader).cursor =
      ⟨r.position, r.window.take size⟩ := by
  refine congrArg (Cursor.mk _) ?_
  unfold window remaining at *
  rw [List.take_take, Nat.min_eq_left h]
  exact congrArg (List.take · _) (Nat.add_sub_cancel_left _ _)

/-- What lies behind a part of the window. -/
theorem cursor_drop (r : Reader) (size : Nat) :
    ({ r with position := r.position + size } : Reader).cursor =
      ⟨r.position + size, r.window.drop size⟩ := by
  refine congrArg (Cursor.mk _) ?_
  unfold window remaining
  rw [List.drop_take, List.drop_drop]
  exact congrArg (List.take · _) (Nat.sub_sub _ _ _).symm

end Reader

/-! ## Traces -/

namespace Trace

variable {t : Trace} {r : Reader} {input : List UInt8}

/-- **A reader that has been used properly**: it started at the front of the input, and it never
left the input, never went back and never changed once it had failed. -/
structure Sound (input : List UInt8) (t : Trace) : Prop where
  start : t.all.getLast? = some (.ofBytes input)
  inside : ∀ r ∈ t.all, r.Inside input
  ahead : t.all.Pairwise fun later earlier => earlier.Ahead later

theorem Sound.reader (h : t.Sound input) : t.reader.Inside input := h.inside _ List.mem_cons_self

theorem map_result {α β : Type} (t : Trace) (f : α → β) (a : α) :
    (t.result a).map f = t.result (f a) := by
  unfold result
  cases t.reader.error <;> rfl

theorem sound_start (input : List UInt8) : Sound input ⟨.ofBytes input, []⟩ where
  start := rfl
  inside r hr := by
    obtain rfl := List.mem_singleton.mp hr
    exact ⟨rfl, Nat.zero_le _, Nat.le_refl _, nofun⟩
  ahead := List.pairwise_singleton _ _

theorem Sound.step (h : t.Sound input) (hr : r.Inside input) (hahead : t.reader.Ahead r) :
    (t.step r).Sound input where
  start := List.getLast?_cons_cons.trans h.start
  inside := List.forall_mem_cons.mpr ⟨hr, h.inside⟩
  ahead := by
    refine List.pairwise_cons.mpr ⟨List.forall_mem_cons.mpr ⟨hahead, fun r' hr' => ?_⟩, h.ahead⟩
    exact ((List.pairwise_cons.mp h.ahead).1 r' hr').trans hahead

end Trace

namespace Decoder

variable {α β : Type} {d : Decoder α} {f : α → Decoder β} {c c' : Cursor}

theorem bind_error {e : LoadError} (h : d c = .error e) : (d >>= f) c = .error e := by
  show (d c >>= fun r => f r.1 r.2) = .error e
  rw [h]
  rfl

theorem map_ok {a : α} (h : d c = .ok (a, c')) (g : α → β) : (g <$> d) c = .ok (g a, c') := by
  rw [← bind_pure_comp, bind_ok h]
  rfl

theorem map_error {e : LoadError} (h : d c = .error e) (g : α → β) :
    (g <$> d) c = .error e := by
  rw [← bind_pure_comp, bind_error h]

end Decoder

namespace Pass

variable {α β : Type} {input : List UInt8} {t : Trace}

/-! ## Outcomes -/

/-- **How a pass leaves a reader, where a decoder is meant.** Values are paid for with credit and
with bytes. The pass has the credit `b`, or `f` when there is an error already; its value `a` comes
to `w a`, or to `v a` when there is an error by then; every byte passed is worth one. -/
inductive Outcome {α : Type} (d : Decoder α) (b f : Int) (w v : α → Int) (r : Reader) (a : α)
    (r' : Reader) : Prop where
  /-- There was an error already. -/
  | rested {e : LoadError} (hfailed : r.error = some e) (herror : r'.error = some e)
      (hposition : r'.position = r.position) (hlimit : r'.limit ≤ r.limit) (hpaid : v a ≤ f)
  /-- The decoder gives the value and goes as far. -/
  | read (hok : r.error = none) (hd : d r.cursor = .ok (a, r'.cursor))
      (hreader : r' = { r with position := r'.position })
      (hpaid : w a ≤ b + (r'.position - r.position))
  /-- The decoder stops with the error. -/
  | stopped {e : LoadError} (hok : r.error = none) (hd : d r.cursor = .error e)
      (herror : r'.error = some e) (hlimit : r'.limit ≤ r.limit)
      (hpaid : v a ≤ b + (r'.position - r.position))

/-- From here the pass has a value and uses its reader properly, with such an outcome. -/
def Ends {α : Type} (p : Pass α) (d : Decoder α) (b f : Int) (w v : α → Int)
    (input : List UInt8) (t : Trace) : Prop :=
  ∃ a t', p t = some (a, t') ∧ t'.Sound input ∧ Outcome d b f w v t.reader a t'.reader

/-- **The pass follows the decoder, and its values are paid for.** -/
def Charged {α : Type} (p : Pass α) (d : Decoder α) (b f : Int) (w v : α → Int) : Prop :=
  ∀ input t, t.Sound input → p.Ends d b f w v input t

/-- The pass follows the decoder. Nothing is charged for its values. -/
def Follows {α : Type} (p : Pass α) (d : Decoder α) : Prop :=
  Charged p d 0 0 (fun _ => 0) fun _ => 0

variable {p : Pass α} {q : α → Pass β} {d : Decoder α} {g : α → Decoder β} {a : α}
  {b f b' f' : Int} {w v w₁ v₁ : α → Int} {w' v' : β → Int} {r r' r'' : Reader}

/-- Credit that is not needed can be kept, more of it in front of an error than behind. -/
theorem Outcome.adapt (h : Outcome d b f w v r a r') (k m : Int) (hkm : m ≤ k) (hb : b + k ≤ b')
    (hf : f + m ≤ f') (hw : w₁ a ≤ w a + k) (hv : v₁ a ≤ v a + m) :
    Outcome d b' f' w₁ v₁ r a r' := by
  cases h with
  | rested hfailed herror hposition hlimit hpaid =>
    exact .rested hfailed herror hposition hlimit (by omega)
  | read hok hd hreader hpaid => exact .read hok hd hreader (by omega)
  | stopped hok hd herror hlimit hpaid => exact .stopped hok hd herror hlimit (by omega)

theorem Charged.adapt (h : Charged p d b f w v) (k m : Int) (hkm : m ≤ k) (hb : b + k ≤ b')
    (hf : f + m ≤ f') (hw : ∀ a, w₁ a ≤ w a + k) (hv : ∀ a, v₁ a ≤ v a + m) :
    Charged p d b' f' w₁ v₁ := by
  intro input t ht
  obtain ⟨a, t', hp, ht', ho⟩ := h input t ht
  exact ⟨a, t', hp, ht', ho.adapt k m hkm hb hf (hw a) (hv a)⟩

theorem Outcome.limit_le (h : Outcome d b f w v r a r') : r'.limit ≤ r.limit := by
  cases h with
  | rested hfailed herror hposition hlimit => exact hlimit
  | read hok hd hreader => rw [hreader]
  | stopped hok hd herror hlimit => exact hlimit

/-- Two outcomes, one behind the other. -/
theorem Outcome.bind {c : β} (h : Outcome d b f w v r a r')
    (h' : Outcome (g a) (w a) (v a) w' v' r' c r'') : Outcome (d >>= g) b f w' v' r c r'' := by
  cases h with
  | rested hfailed herror hposition hlimit hpaid =>
    cases h' with
    | rested hfailed' herror' hposition' hlimit' hpaid' =>
      obtain rfl := Option.some.inj (herror.symm.trans hfailed')
      exact .rested hfailed herror' (hposition'.trans hposition) (Nat.le_trans hlimit' hlimit)
        (Int.le_trans hpaid' hpaid)
    | read hok' | stopped hok' => exact absurd (herror.symm.trans hok') (by simp)
  | read hok hd hreader hpaid =>
    have hok₁ : r'.error = none := by rw [hreader]; exact hok
    have hlimit₁ : r'.limit = r.limit := by rw [hreader]
    cases h' with
    | rested hfailed' => exact absurd (hok₁.symm.trans hfailed') (by simp)
    | read hok' hd' hreader' hpaid' =>
      refine .read hok ((Decoder.bind_ok hd).trans hd') ?_ (by omega)
      rw [hreader', hreader]
    | stopped hok' hd' herror' hlimit' hpaid' =>
      exact .stopped hok ((Decoder.bind_ok hd).trans hd') herror' (hlimit₁ ▸ hlimit') (by omega)
  | stopped hok hd herror hlimit hpaid =>
    cases h' with
    | rested hfailed' herror' hposition' hlimit' hpaid' =>
      refine .stopped hok (Decoder.bind_error hd) (herror'.trans (hfailed'.symm.trans herror))
        (Nat.le_trans hlimit' hlimit) ?_
      rw [hposition']
      exact Int.le_trans hpaid' hpaid
    | read hok' | stopped hok' => exact absurd (herror.symm.trans hok') (by simp)

/-- Only what the decoder does from here matters. -/
theorem Ends.congr {d' : Decoder α} (h : p.Ends d b f w v input t)
    (hd : d t.reader.cursor = d' t.reader.cursor) : p.Ends d' b f w v input t := by
  obtain ⟨a, t', hp, ht', ho⟩ := h
  refine ⟨a, t', hp, ht', ?_⟩
  cases ho with
  | rested hfailed herror hposition hlimit hpaid =>
    exact .rested hfailed herror hposition hlimit hpaid
  | read hok hd' hreader hpaid => exact .read hok (hd.symm.trans hd') hreader hpaid
  | stopped hok hd' herror hlimit hpaid =>
    exact .stopped hok (hd.symm.trans hd') herror hlimit hpaid

theorem Ends.bind (h : p.Ends d b f w v input t)
    (hq : ∀ a t', t'.Sound input → Outcome d b f w v t.reader a t'.reader →
      (q a).Ends (g a) (w a) (v a) w' v' input t') :
    (p >>= q).Ends (d >>= g) b f w' v' input t := by
  obtain ⟨a, t', hp, ht', ho⟩ := h
  obtain ⟨c, t'', hq', ht'', ho'⟩ := hq a t' ht' ho
  refine ⟨c, t'', ?_, ht'', ho.bind ho'⟩
  show (p t).bind (fun r => q r.1 r.2) = _
  rw [hp]
  exact hq'

/-! ## Sequences -/

/-- What a pass leaves of its credit is what the next one has. -/
theorem Charged.bind (h : Charged p d b f w v)
    (hq : ∀ a, Charged (q a) (g a) (w a) (v a) w' v') : Charged (p >>= q) (d >>= g) b f w' v' :=
  fun input t ht => (h input t ht).bind fun a t' ht' _ => hq a input t' ht'

/-- A pass that has more credit than it needs hands on the rest. -/
theorem Charged.after (h : Charged p d b f w v) (k m : Int) (hkm : m ≤ k) (hb : b + k ≤ b')
    (hf : f + m ≤ f') (hq : ∀ a, Charged (q a) (g a) (w a + k) (v a + m) w' v') :
    Charged (p >>= q) (d >>= g) b' f' w' v' :=
  (h.adapt k m hkm hb hf (fun _ => Int.le_refl _) fun _ => Int.le_refl _).bind hq

theorem charged_pure (hw : w a ≤ b) (hv : v a ≤ f) : Charged (pure a) (pure a) b f w v := by
  intro input t ht
  refine ⟨a, t, rfl, ht, ?_⟩
  cases herror : t.reader.error with
  | none => exact .read herror rfl rfl (by omega)
  | some e => exact .rested herror herror rfl (Nat.le_refl _) hv

theorem Follows.bind (h : Follows p d) (hq : ∀ a, Follows (q a) (g a)) :
    Follows (p >>= q) (d >>= g) := Charged.bind h hq

theorem follows_pure (a : α) : Follows (pure a) (pure a) :=
  charged_pure (Int.le_refl 0) (Int.le_refl 0)

theorem Follows.charged (h : Follows p d) (hfb : f ≤ b) :
    Charged p d b f (fun _ => b) fun _ => f :=
  h.adapt b f hfb (by omega) (by omega) (fun _ => by omega) fun _ => by omega

/-- A pass for which nothing is charged earns the bytes that its decoder is sure to pass. -/
theorem Follows.earns {n : Nat} (h : Follows p d) (hd : Decoder.Local n d) (hfb : f ≤ b) :
    Charged p d b f (fun _ => b + n) fun _ => f := by
  intro input t ht
  obtain ⟨a, t', hp, ht', ho⟩ := h.charged hfb input t ht
  refine ⟨a, t', hp, ht', ?_⟩
  cases ho with
  | rested hfailed herror hposition hlimit hpaid =>
    exact .rested hfailed herror hposition hlimit hpaid
  | stopped hok hd herror hlimit hpaid => exact .stopped hok hd herror hlimit hpaid
  | read hok hd' hreader hpaid =>
    obtain ⟨bytes, ⟨-, hoffset⟩, hlen, -⟩ := hd _ _ _ hd'
    have hoffset : t'.reader.position = t.reader.position + bytes.length := hoffset
    exact .read hok hd' hreader (by omega)

/-- First a pass for which nothing is charged. -/
theorem Follows.first {n : Nat} (h : Follows p d) (hd : Decoder.Local n d) (hfb : f ≤ b)
    (hq : ∀ a, Charged (q a) (g a) (b + n) f w' v') : Charged (p >>= q) (d >>= g) b f w' v' :=
  (h.earns hd hfb).bind hq

theorem Charged.map {e : α → β} (h : Charged p d b f w v) (hw : ∀ a, w' (e a) ≤ w a)
    (hv : ∀ a, v' (e a) ≤ v a) : Charged (e <$> p) (e <$> d) b f w' v' := by
  rw [← bind_pure_comp, ← bind_pure_comp]
  exact h.bind fun a => charged_pure (hw a) (hv a)

/-! ## Errors -/

/-- Before an error it does not matter what the pass would have behind one. -/
theorem Outcome.of_ok (h : Outcome d b f w v r a r') (hok : r.error = none) :
    Outcome d b f' w v r a r' := by
  cases h with
  | rested hfailed => exact absurd (hok.symm.trans hfailed) (by simp)
  | read hok hd hreader hpaid => exact .read hok hd hreader hpaid
  | stopped hok hd herror hlimit hpaid => exact .stopped hok hd herror hlimit hpaid

theorem Ends.of_ok (h : p.Ends d b f w v input t) (hok : t.reader.error = none) :
    p.Ends d b f' w v input t := by
  obtain ⟨a, t', hp, ht', ho⟩ := h
  exact ⟨a, t', hp, ht', ho.of_ok hok⟩

theorem unlessFailed_of_error {e : LoadError} (h : t.reader.error = some e) (a : α)
    (p : Pass α) : unlessFailed a p t = some (a, t) := by
  show (if t.reader.error.isSome then pure a else p : Pass α) t = _
  rw [h]
  rfl

theorem unlessFailed_of_ok (h : t.reader.error = none) (a : α) (p : Pass α) :
    unlessFailed a p t = p t := by
  show (if t.reader.error.isSome then pure a else p : Pass α) t = _
  rw [h]
  rfl

theorem ends_unlessFailed (ht : t.Sound input) (hv : v a ≤ f')
    (hp : t.reader.error = none → p.Ends d b f w v input t) :
    (unlessFailed a p).Ends d b f' w v input t := by
  cases herror : t.reader.error with
  | none =>
    obtain ⟨a', t', hp', ht', ho⟩ := hp herror
    exact ⟨a', t', (unlessFailed_of_ok herror a p).trans hp', ht', ho.of_ok herror⟩
  | some e =>
    exact ⟨a, t, unlessFailed_of_error herror a p, ht,
      .rested herror herror rfl (Nat.le_refl _) hv⟩

/-- A pass that is not run behind an error. -/
theorem Charged.unlessFailed (h : Charged p d b f w v) (hv : v a ≤ f') :
    Charged (unlessFailed a p) d b f' w v :=
  fun input t ht => ends_unlessFailed ht hv fun _ => h input t ht

theorem Follows.unlessFailed (h : Follows p d) (a : α) : Follows (unlessFailed a p) d :=
  Charged.unlessFailed h (Int.le_refl 0)

/-- An operation of the reader, by what it makes of one. -/
theorem ends_act {op : Reader → α × Reader} (ht : t.Sound input)
    (hin : (op t.reader).2.Inside input) (hahead : t.reader.Ahead (op t.reader).2)
    (ho : Outcome d b f w v t.reader (op t.reader).1 (op t.reader).2) :
    (act op).Ends d b f w v input t :=
  ⟨(op t.reader).1, t.step (op t.reader).2, rfl, ht.step hin hahead, ho⟩

theorem charged_fail {cause : LoadCause} {w v : Unit → Int} (hb : v () ≤ b) (hf : v () ≤ f) :
    Charged (fail cause) (Decoder.fail cause) b f w v := by
  intro input t ht
  refine ends_act ht (ht.reader.fail cause) (Reader.ahead_fail _ cause) ?_
  show Outcome _ b f w v t.reader () (t.reader.fail cause)
  cases herror : t.reader.error with
  | some e =>
    rw [Reader.fail_of_error herror]
    exact .rested herror herror rfl (Nat.le_refl _) hf
  | none =>
    rw [Reader.fail_of_ok herror]
    exact .stopped herror rfl rfl (Nat.le_refl _) (by simpa using hb)

theorem charged_giveUp {cause : LoadCause} (hb : v a ≤ b) (hf : v a ≤ f) :
    Charged (giveUp cause a) (Decoder.fail cause) b f w v := by
  have hfail : (Decoder.fail cause : Decoder α) = Decoder.fail cause >>= fun _ : Unit => pure a :=
    rfl
  rw [hfail]
  exact (charged_fail (w := fun _ => w a) (v := fun _ => v a) hb hf).bind fun _ =>
    charged_pure (Int.le_refl _) (Int.le_refl _)

theorem follows_giveUp (cause : LoadCause) (a : α) :
    Follows (giveUp cause a) (Decoder.fail cause) :=
  charged_giveUp (Int.le_refl 0) (Int.le_refl 0)

theorem follows_require (condition : Bool) (cause : LoadCause) :
    Follows (require condition cause) (Decoder.require condition cause) := by
  unfold require Decoder.require
  cases condition with
  | false => exact charged_fail (Int.le_refl 0) (Int.le_refl 0)
  | true => exact follows_pure ()

/-! ## Reads -/

/-- A read of a decoder that passes what it gives and stops where it starts. -/
theorem charged_read {n : Nat} (hlocal : Decoder.Local n d)
    (hstop : ∀ c e, d c = .error e → e.offset = c.offset)
    (hw : ∀ c a c', d c = .ok (a, c') → w a + c.offset ≤ c'.offset) (hv : v a ≤ 0) :
    Charged (act (·.read d a)) d 0 0 w v := by
  intro input t ht
  have hin := ht.reader
  cases herror : t.reader.error with
  | some e =>
    refine ends_act ht ?_ ?_ ?_ <;> rw [Reader.read_of_error herror]
    · exact hin
    · exact .refl _
    · exact .rested herror herror rfl (Nat.le_refl _) hv
  | none =>
    cases hd : d t.reader.cursor with
    | error e =>
      have hoffset : e.offset = t.reader.position := hstop _ _ hd
      refine ends_act ht ?_ ?_ ?_ <;> rw [Reader.read_of_stop herror hd, hoffset]
      · refine ⟨hin.input_eq, hin.position_le, hin.limit_le, fun e' he' => ?_⟩
        obtain rfl := Option.some.inj he'
        rw [hoffset]
        exact Nat.le_trans hin.position_le hin.limit_le
      · exact Reader.ahead_of_ok herror (Nat.le_refl _)
      · exact .stopped herror hd rfl (Nat.le_refl _) (by simpa using hv)
    | ok result =>
      obtain ⟨a', c⟩ := result
      obtain ⟨bytes, hpass, -, -⟩ := hlocal _ _ _ hd
      obtain ⟨hcursor, hoffset, hlimit⟩ := hin.cursor_skip hpass
      have hpaid : w a' + t.reader.position ≤ c.offset := hw _ _ _ hd
      refine ends_act ht ?_ ?_ ?_ <;> rw [Reader.read_of_value herror hd]
      · exact ⟨hin.input_eq, hlimit, hin.limit_le,
          fun e he => absurd (herror.symm.trans he) (by simp)⟩
      · exact Reader.ahead_of_ok herror (by simp only; omega)
      · refine .read herror ?_ rfl (by simp only; omega)
        rw [← hcursor]
        exact hd

theorem follows_byte : Follows byte Decoder.byte := by
  refine charged_read Decoder.local_byte ?_ ?_ (Int.le_refl 0)
  · rintro ⟨offset, _ | ⟨b, rest⟩⟩ e h
    · cases h
      rfl
    · cases h
  · rintro ⟨offset, _ | ⟨b, rest⟩⟩ b' c' h
    · cases h
    · cases h
      simp

/-- Bytes are worth themselves. -/
theorem charged_bytes (size : Nat) : Charged (bytes size) (Decoder.bytes size) 0 0
    (fun content => content.length) fun content => content.length := by
  refine charged_read (Decoder.local_bytes size) (fun c e h => ?_) (fun c content c' h => ?_)
    (Int.le_refl 0)
  · unfold Decoder.bytes at h
    split at h <;> cases h
    rfl
  · obtain ⟨⟨-, hoffset⟩, -⟩ := Decoder.bytes_eq_ok_iff.mp h
    omega

theorem follows_bytes (size : Nat) : Follows (bytes size) (Decoder.bytes size) :=
  (charged_bytes size).adapt 0 0 (Int.le_refl 0) (Int.le_refl 0) (Int.le_refl 0)
    (fun _ => by omega) fun _ => by omega

theorem follows_remainder : Follows remainder Decoder.remainder := by
  intro input t ht
  refine Ends.congr (follows_bytes t.reader.remaining input t ht) ?_
  have hlen : t.reader.cursor.rest.length = t.reader.remaining := ht.reader.length_window
  unfold Decoder.bytes Decoder.remainder
  rw [← hlen, if_neg (Nat.lt_irrefl _), List.take_length, List.drop_length]

/-! ## Integers -/

theorem follows_fixed (size : Nat) : Follows (fixed size) (Decoder.fixed size) := by
  induction size with
  | zero => exact follows_pure 0
  | succ size ih => exact follows_byte.bind fun low => ih.bind fun high => follows_pure _

theorem follows_unsignedGroups (more : Nat) :
    Follows (unsignedGroups more) (Decoder.unsignedGroups more) := by
  induction more with
  | zero =>
    refine follows_byte.bind fun b => ?_
    split
    · exact follows_pure _
    · exact follows_giveUp _ _
  | succ more ih =>
    refine follows_byte.bind fun b => ?_
    split
    · exact follows_pure _
    · exact ih.bind fun high => follows_pure _

theorem follows_signedGroups (lastBits more : Nat) :
    Follows (signedGroups lastBits more) (Decoder.signedGroups lastBits more) := by
  induction more with
  | zero =>
    refine follows_byte.bind fun b => ?_
    simp only
    split
    · exact follows_pure _
    · exact follows_giveUp _ _
  | succ more ih =>
    refine follows_byte.bind fun b => ?_
    split
    · exact follows_pure _
    · exact ih.bind fun high => follows_pure _

theorem follows_u32 : Follows u32 Decoder.u32 :=
  (follows_unsignedGroups 4).bind fun n => (follows_pure n.toUInt32).unlessFailed 0

theorem follows_s32 : Follows s32 Decoder.s32 := by
  have h := (follows_signedGroups 4 4).bind fun n => (follows_pure n).unlessFailed 0
  rwa [bind_pure] at h

theorem follows_s64 : Follows s64 Decoder.s64 := by
  have h := (follows_signedGroups 1 9).bind fun n => (follows_pure n).unlessFailed 0
  rwa [bind_pure] at h

end Pass

end WasmDebugger
