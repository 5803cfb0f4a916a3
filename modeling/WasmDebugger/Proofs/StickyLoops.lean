import WasmDebugger.Proofs.StickyReading

/-!
# Loops and windows of passes

A loop of a pass asks before every round whether something has failed, so that it has one item at
most that was not there to be read.

* `Pass.total`: what a list of items is worth.
* **`Pass.Charged.times`**: a loop by a count. **`Pass.Charged.toLimit`**: a loop to the limit,
  which comes to an end because each of its rounds passes a byte or fails.
* **`Pass.Charged.within`**: a part of declared size.
-/

namespace WasmDebugger

/-! ## Decoders -/

namespace Decoder

variable {α σ : Type} {d : Decoder α} {a : α} {c : Cursor} {size : Nat} {mismatch : LoadCause}

/-- Rounds as long as bytes are left, at most `n`. -/
def rounds (step : σ → Decoder σ) (s : σ) : Nat → Decoder σ
  | 0 => pure s
  | n + 1 => do
    if ← atEnd then pure s
    else
      let s ← step s
      rounds step s n

theorem rounds_succ (step : σ → Decoder σ) (s : σ) (n : Nat) (c : Cursor) :
    rounds step s (n + 1) c =
      if c.rest.isEmpty then (pure s : Decoder σ) c
      else (step s >>= fun s => rounds step s n) c := by
  rw [rounds, bind_ok (d := atEnd) rfl]
  split <;> rfl

/-- One item more. -/
def push (item : Decoder α) (l : List α) : Decoder (List α) := do
  let a ← item
  pure (l ++ [a])

theorem rounds_push (item : Decoder α) (l : List α) (n : Nat) :
    rounds (push item) l n = (l ++ ·) <$> upTo item n := by
  induction n generalizing l with
  | zero => simp [rounds, upTo]
  | succ n ih =>
    unfold rounds upTo
    rw [map_bind]
    refine bind_congr fun ended => ?_
    cases ended with
    | true => simp
    | false => simp [push, ih]

theorem within_of_lt (h : c.rest.length < size) :
    within size mismatch d c = .error ⟨.lengthOutOfBounds, c.offset⟩ := if_pos h

theorem within_of_stop {e : LoadError} (h : size ≤ c.rest.length)
    (hd : d ⟨c.offset, c.rest.take size⟩ = .error e) (mismatch : LoadCause) :
    within size mismatch d c = .error e := by
  unfold within
  rw [if_neg (Nat.not_lt.mpr h), hd]

theorem within_of_value {c' : Cursor} (h : size ≤ c.rest.length)
    (hd : d ⟨c.offset, c.rest.take size⟩ = .ok (a, c')) (mismatch : LoadCause) :
    within size mismatch d c =
      if c'.rest.isEmpty then .ok (a, ⟨c.offset + size, c.rest.drop size⟩)
      else .error ⟨mismatch, c'.offset⟩ := by
  unfold within
  rw [if_neg (Nat.not_lt.mpr h), hd]
  obtain ⟨offset, _ | ⟨b, rest⟩⟩ := c' <;> rfl

end Decoder

namespace Pass

/-! ## Counts -/

section Counts

variable {α : Type} {d : Decoder α} {f : Int}

theorem follows_count : Follows count Decoder.count := by
  refine follows_u32.bind fun n input t ht => ?_
  have hlen : t.reader.cursor.rest.length = t.reader.remaining := ht.reader.length_window
  show Ends (if t.reader.remaining < n.toNat then giveUp .countTooLarge 0 else pure n.toNat) _ _ _ _
    _ input t
  split
  · rename_i hlt
    refine (follows_giveUp .countTooLarge 0 input t ht).congr ?_
    exact (if_pos (hlen ▸ hlt)).symm
  · rename_i hlt
    refine (follows_pure n.toNat input t ht).congr ?_
    exact (if_neg (hlen ▸ hlt)).symm

/-- What a list of items is worth. -/
def total (worth : α → Nat) (l : List α) : Int := ((l.map worth).sum : Nat)

@[simp] theorem total_nil (worth : α → Nat) : total worth [] = 0 := rfl

@[simp] theorem total_cons (worth : α → Nat) (a : α) (l : List α) :
    total worth (a :: l) = worth a + total worth l := by
  simp [total]

@[simp] theorem total_one (l : List α) : total (fun _ => 1) l = l.length := by
  simp [total]

@[simp] theorem total_append (worth : α → Nat) (l l' : List α) :
    total worth (l ++ l') = total worth l + total worth l' := by
  simp [total]

/-- A loop that asks before each item whether something has failed. An item may leave a debt of
`late` when it fails, as it stays in the list; there is no other one behind it. -/
theorem Charged.times {item : Pass (Option α)} {worth : α → Nat} {late : Int}
    (h : Charged item (some <$> d) 0 f (fun o => total worth o.toList)
      fun o => total worth o.toList - late) (n : Nat) :
    Charged (times item n) (Decoder.times d n) 0 (-late) (total worth)
      fun l => total worth l - late := by
  induction n with
  | zero => exact charged_pure (by simp) (by simp)
  | succ n ih =>
    have hd : Decoder.times d (n + 1) = (some <$> d) >>= fun o =>
        Decoder.times d n >>= fun rest => pure (o.toList ++ rest) := by
      rw [bind_map_left]
      rfl
    rw [hd]
    refine Charged.unlessFailed (h.bind fun o => ?_) (by simp)
    refine ih.after (total worth o.toList) (total worth o.toList) (Int.le_refl _) (by omega)
      (by omega) fun rest => charged_pure ?_ ?_ <;> rw [total_append] <;> omega

theorem Charged.vector {item : Pass (Option α)} {worth : α → Nat} {late : Nat}
    (h : Charged item (some <$> d) 0 f (fun o => total worth o.toList)
      fun o => total worth o.toList - late) :
    Charged (vector item) (Decoder.vector d) 0 (-late) (total worth)
      fun l => total worth l - late :=
  (follows_count.charged (by omega)).bind h.times

end Counts

/-! ## Loops to the limit -/

section Rounds

variable {σ : Type} {input : List UInt8} {t : Trace} {late : Int} {step : σ → Pass σ}
  {g : σ → Decoder σ} {w f : σ → Int}

/-- **A loop to the limit ends.** Each of its rounds passes a byte or fails, so that a round more
than there are bytes is one too many. -/
theorem Charged.rounds (h : ∀ s, Charged (step s) (g s) (w s) (f s) w fun s => w s - late)
    (hg : ∀ s, Decoder.Local 1 (g s)) {n : Nat} (s : σ) (ht : t.Sound input)
    (hn : t.reader.error = none → t.reader.remaining ≤ n) :
    (rounds step s (n + 1)).Ends (Decoder.rounds g s n) (w s) (w s - late) w (fun s => w s - late)
      input t := by
  have hpure : ∀ s, Charged (pure s) (pure s) (w s) (w s - late) w fun s => w s - late :=
    fun s => charged_pure (Int.le_refl _) (Int.le_refl _)
  induction n generalizing s t with
  | zero =>
    refine ends_unlessFailed (f := w s - late) ht (Int.le_refl _) fun hok => ?_
    have hended : t.reader.atLimit = true := by
      have := hn hok
      unfold Reader.remaining at this
      exact decide_eq_true (by omega)
    show Ends (if t.reader.atLimit then pure s else _) _ _ _ _ _ input t
    rw [hended]
    exact hpure s input t ht
  | succ n ih =>
    refine ends_unlessFailed (f := w s - late) ht (Int.le_refl _) fun hok => ?_
    have hempty : t.reader.cursor.rest.isEmpty = t.reader.atLimit := ht.reader.isEmpty_window
    have hd := Decoder.rounds_succ g s n t.reader.cursor
    rw [hempty] at hd
    show Ends (if t.reader.atLimit then pure s else step s >>= fun s => rounds step s (n + 1))
      _ _ _ _ _ input t
    cases hended : t.reader.atLimit with
    | true =>
      rw [hended] at hd
      exact (hpure s input t ht).congr hd.symm
    | false =>
      rw [hended] at hd
      have hnext : (step s >>= fun s => rounds step s (n + 1)).Ends
          (g s >>= fun s => Decoder.rounds g s n) (w s) (f s) w (fun s => w s - late) input t := by
        refine (h s input t ht).bind fun s' t' ht' ho => ih s' ht' fun hok' => ?_
        cases ho with
        | rested hfailed => exact absurd (hok.symm.trans hfailed) (by simp)
        | stopped _ _ herror => exact absurd (hok'.symm.trans herror) (by simp)
        | read _ hd hreader =>
          obtain ⟨bytes, ⟨-, hoffset⟩, hlen, -⟩ := hg s _ _ _ hd
          have hposition : t'.reader.position = t.reader.position + bytes.length := hoffset
          have hlimit : t'.reader.limit = t.reader.limit := by rw [hreader]
          have := hn hok
          unfold Reader.remaining at *
          omega
      exact (hnext.congr hd.symm).of_ok hok

theorem Charged.toLimit (h : ∀ s, Charged (step s) (g s) (w s) (f s) w fun s => w s - late)
    (hg : ∀ s, Decoder.Local 1 (g s)) (s : σ) :
    Charged (toLimit step s) (fun c => Decoder.rounds g s c.rest.length c) (w s) (w s - late) w
      fun s => w s - late := by
  intro input t ht
  refine (Charged.rounds h hg s ht fun _ => Nat.le_refl _).congr ?_
  rw [← ht.reader.length_window]
  rfl

end Rounds

/-! ## Windows -/

section Windows

variable {α : Type} {d : Decoder α} {b f f' : Int} {w v : α → Int} {w' v' : Option α → Int}
  {inner : Pass α} {input : List UInt8} {t : Trace} {size : Nat} {mismatch : LoadCause}

/-- Below the outer limit a window can be left whatever has happened in it. -/
theorem exists_leave {outer : Nat} (ht : t.Sound input) (hposition : t.reader.position ≤ outer)
    (houter : outer ≤ input.length) (mismatch : LoadCause) :
    ∃ t', leave outer mismatch t = some ((), t') ∧ t'.Sound input ∧ t'.reader =
      { (if t.reader.atLimit then t.reader else t.reader.fail mismatch) with limit := outer } := by
  have hrestore : ∀ t : Trace, t.Sound input → t.reader.position ≤ outer →
      (t.step { t.reader with limit := outer }).Sound input := fun t ht hposition =>
    ht.step ⟨ht.reader.input_eq, hposition, houter, ht.reader.offset_le⟩ (Reader.ahead_limit _ _)
  cases hended : t.reader.atLimit with
  | true =>
    refine ⟨t.step { t.reader with limit := outer }, ?_, hrestore t ht hposition, rfl⟩
    show (require t.reader.atLimit mismatch t).bind _ = _
    rw [hended]
    rfl
  | false =>
    have ht' : (t.step (t.reader.fail mismatch)).Sound input :=
      ht.step (ht.reader.fail mismatch) (Reader.ahead_fail _ mismatch)
    refine ⟨_, ?_, hrestore _ ht' ((Reader.position_fail _ _).trans_le hposition), rfl⟩
    show (require t.reader.atLimit mismatch t).bind _ = _
    rw [hended]
    rfl

/-- Under a limit that can be set, the pass inside it leaves what the whole one comes to. -/
theorem Outcome.within {r r₂ r₃ : Reader} {a : α} (hr : r.Inside input) (hr₂ : r₂.Inside input)
    (hsize : size ≤ r.remaining) (hok : r.error = none)
    (ho : Outcome d b f w v { r with limit := r.position + size } a r₂)
    (hr₃ : r₃ = { (if r₂.atLimit then r₂ else r₂.fail mismatch) with limit := r.limit })
    (hw : w' (some a) ≤ w a) (hmismatch : v' (some a) ≤ w a) (hv : v' (some a) ≤ v a) :
    Outcome (some <$> Decoder.within size mismatch d) b f' w' v' r (some a) r₃ := by
  have hlen : r.cursor.rest.length = r.remaining := hr.length_window
  cases ho with
  | rested hfailed => exact absurd (hok.symm.trans hfailed) (by simp)
  | stopped hok hd herror hlimit hpaid =>
    rw [Reader.cursor_limit hsize] at hd
    have hr₃ : r₃ = { r₂ with limit := r.limit } := by
      rw [hr₃, Reader.fail_of_error herror, ite_self]
    have hwithin := Decoder.within_of_stop (c := r.cursor) (by omega) hd mismatch
    refine .stopped hok (Decoder.map_error hwithin some) (by rw [hr₃]; exact herror) ?_ ?_
    · rw [hr₃]
    · rw [hr₃]
      exact Int.le_trans hv hpaid
  | read hok hd hreader hpaid =>
    rw [Reader.cursor_limit hsize] at hd
    have hwithin := Decoder.within_of_value (c := r.cursor) (by omega) hd mismatch
    have hempty : r₂.cursor.rest.isEmpty = r₂.atLimit := hr₂.isEmpty_window
    have hok₂ : r₂.error = none := by rw [hreader]; exact hok
    rw [hempty] at hwithin
    cases hended : r₂.atLimit with
    | false =>
      rw [hended] at hwithin hr₃
      have hr₃ : r₃ = { r₂.fail mismatch with limit := r.limit } := hr₃
      rw [Reader.fail_of_ok hok₂] at hr₃
      refine .stopped hok (Decoder.map_error hwithin some) (by rw [hr₃]; rfl) (by rw [hr₃]) ?_
      rw [hr₃]
      exact Int.le_trans hmismatch hpaid
    | true =>
      rw [hended] at hwithin hr₃
      have hr₃ : r₃ = { r₂ with limit := r.limit } := hr₃
      have hposition : r₂.position = r.position + size := by
        have hlimit₂ : r₂.limit = r.position + size := by rw [hreader]
        have hle := hr₂.position_le
        have hge := of_decide_eq_true hended
        omega
      have hr₃ : r₃ = { r with position := r.position + size } := by
        rw [hr₃, hreader, hposition]
      refine .read hok ?_ (by rw [hr₃]) ?_
      · rw [Decoder.map_ok hwithin some, hr₃, Reader.cursor_drop]
        rfl
      · rw [hr₃]
        rw [hposition] at hpaid
        exact Int.le_trans hw hpaid

/-- **A window of declared size.** Inside it the pass has a limit of its own. -/
theorem Charged.within (h : Charged inner d b f w v) (hw : ∀ a, w' (some a) ≤ w a)
    (hmismatch : ∀ a, v' (some a) ≤ w a) (hv : ∀ a, v' (some a) ≤ v a) (hb : v' none ≤ b)
    (hf : v' none ≤ f') : Charged (within size mismatch inner)
      (some <$> Decoder.within size mismatch d) b f' w' v' := by
  intro input t ht
  have hin := ht.reader
  have hrun : Pass.within size mismatch inner t = Pass.unlessFailed none (inner >>= fun a =>
      leave (t.reader.pushLimit size).1 mismatch >>= fun _ => pure (some a))
        (t.step (t.reader.pushLimit size).2) := rfl
  obtain hsize | hsize := Nat.lt_or_ge t.reader.remaining size
  · rw [Reader.pushLimit_of_lt hsize] at hrun
    have ht₁ := ht.step (hin.fail .lengthOutOfBounds) (Reader.ahead_fail _ _)
    obtain herror | ⟨e, herror⟩ := Option.eq_none_or_eq_some t.reader.error
    · rw [Reader.fail_of_ok herror] at ht₁ hrun
      refine ⟨none, _, hrun.trans (unlessFailed_of_error (t := t.step _) rfl _ _), ht₁, ?_⟩
      have hlen : t.reader.cursor.rest.length = t.reader.remaining := hin.length_window
      refine .stopped herror ?_ rfl (Nat.le_refl _) ?_
      · exact Decoder.map_error (Decoder.within_of_lt (by omega)) some
      · exact Int.le_trans hb (by simp [Trace.step])
    · rw [Reader.fail_of_error herror] at ht₁ hrun
      exact ⟨none, _, hrun.trans (unlessFailed_of_error (t := t.step _) herror _ _), ht₁,
        .rested herror herror rfl (Nat.le_refl _) hf⟩
  · rw [Reader.pushLimit_of_le hsize] at hrun
    have hlimit : t.reader.position + size ≤ t.reader.limit := by
      have := hin.position_le
      unfold Reader.remaining at hsize
      omega
    have ht₁ : (t.step { t.reader with limit := t.reader.position + size }).Sound input :=
      ht.step ⟨hin.input_eq, Nat.le_add_right _ _, Nat.le_trans hlimit hin.limit_le,
        hin.offset_le⟩ (Reader.ahead_limit _ _)
    have hkept : (t.step { t.reader with limit := t.reader.position + size }).reader.error =
        t.reader.error := rfl
    obtain herror | ⟨e, herror⟩ := Option.eq_none_or_eq_some t.reader.error
    · obtain ⟨a, t₂, hp, ht₂, ho⟩ := h input _ ht₁
      have hlimit₂ : t₂.reader.limit ≤ t.reader.limit := Nat.le_trans ho.limit_le hlimit
      obtain ⟨t₃, hleave, ht₃, hreader₃⟩ := exists_leave ht₂
        (Nat.le_trans ht₂.reader.position_le hlimit₂) hin.limit_le mismatch
      refine ⟨some a, t₃, hrun.trans ?_, ht₃, ?_⟩
      · rw [unlessFailed_of_ok (hkept.trans herror)]
        show (inner _).bind (fun r => (leave t.reader.limit mismatch r.2).bind _) = _
        rw [hp]
        show (leave t.reader.limit mismatch t₂).bind _ = _
        rw [hleave]
        rfl
      · exact ho.within hin ht₂.reader hsize herror hreader₃ (hw a) (hmismatch a) (hv a)
    · exact ⟨none, _, hrun.trans (unlessFailed_of_error (hkept.trans herror) _ _), ht₁,
        .rested herror herror rfl hlimit hf⟩

end Windows

end Pass

end WasmDebugger
