import WasmDebugger.Proofs.VariableLength

/-!
# What decoders look at

A decoder that gives a value has passed some bytes, and on those alone it depends: wherever they
stand and whatever comes behind them, they give the same value.

* `Decoder.Takes`, `Decoder.Exhausts`: certain bytes give a certain value, in front of any others
  or in a window of their own.
* `Decoder.Local n`: the decoder looks at what it passes and at nothing else, and passes `n` bytes
  or more. `Decoder.Whole`: it goes to the end of its window.
* `Decoder.Windowed`: what it gives at the end of a window depends on the window. This is what
  `Decoder.within` asks of a part of declared size.
* **`Decoder.windowed_readSection`**, **`Decoder.local_sizedBody`**: the decoders of sections and of
  function bodies.
-/

namespace WasmDebugger

variable {c c' c'' : Cursor} {bytes more : List UInt8}

theorem Cursor.passed_nil : c.Passed [] c := ⟨rfl, rfl⟩

theorem Cursor.Passed.trans (h : c.Passed bytes c') (h' : c'.Passed more c'') :
    c.Passed (bytes ++ more) c'' := by
  obtain ⟨hrest, hoffset⟩ := h
  obtain ⟨hrest', hoffset'⟩ := h'
  refine ⟨by rw [hrest, hrest', List.append_assoc], ?_⟩
  rw [hoffset', hoffset, List.length_append, Nat.add_assoc]

theorem Cursor.Passed.cases (h : c.Passed bytes c') :
    ∃ offset rest, c = ⟨offset, bytes ++ rest⟩ ∧ c' = ⟨offset + bytes.length, rest⟩ := by
  obtain ⟨offset, rest⟩ := c
  obtain ⟨offset', rest'⟩ := c'
  obtain ⟨hrest, hoffset⟩ := h
  exact ⟨offset, rest', congrArg (Cursor.mk offset) hrest, congrArg (Cursor.mk · rest') hoffset⟩

theorem Cursor.Passed.eq_of_rest (h : c.Passed bytes c') (hc : c'.rest = []) :
    bytes = c.rest ∧ c' = ⟨c.offset + c.rest.length, []⟩ := by
  obtain ⟨offset, rest, rfl, rfl⟩ := h.cases
  obtain rfl : rest = [] := hc
  simp

namespace Decoder

variable {α β : Type} {d : Decoder α} {f : α → Decoder β} {a : α} {b : β} {n m : Nat}

/-! ## Values of bytes -/

/-- In front of any others, these bytes are taken and give the value. -/
def Takes {α : Type} (d : Decoder α) (bytes : List UInt8) (a : α) : Prop :=
  ∀ offset rest, d ⟨offset, bytes ++ rest⟩ = .ok (a, ⟨offset + bytes.length, rest⟩)

/-- In a window of their own, these bytes are all taken and give the value. -/
def Exhausts {α : Type} (d : Decoder α) (bytes : List UInt8) (a : α) : Prop :=
  ∀ offset, d ⟨offset, bytes⟩ = .ok (a, ⟨offset + bytes.length, []⟩)

theorem Takes.exhausts (h : Takes d bytes a) : Exhausts d bytes a := by
  intro offset
  have := h offset []
  rwa [List.append_nil] at this

theorem Takes.bind (h : Takes d bytes a) (hf : Takes (f a) more b) :
    Takes (d >>= f) (bytes ++ more) b := by
  intro offset rest
  rw [List.append_assoc, bind_ok (h offset (more ++ rest)), hf, List.length_append, Nat.add_assoc]

theorem Takes.exhausts_bind (h : Takes d bytes a) (hf : Exhausts (f a) more b) :
    Exhausts (d >>= f) (bytes ++ more) b := by
  intro offset
  rw [bind_ok (h offset more), hf, List.length_append, Nat.add_assoc]

theorem Exhausts.bind (h : Exhausts d bytes a) (hf : Takes (f a) [] b) :
    Exhausts (d >>= f) bytes b := by
  intro offset
  rw [bind_ok (h offset)]
  exact hf (offset + bytes.length) []

theorem takes_pure : Takes (pure a) [] a := fun _ _ => rfl

theorem takes_byte (b : UInt8) : Takes byte [b] b := fun _ _ => rfl

theorem takes_require {condition : Bool} {cause : LoadCause} (h : condition = true) :
    Takes (require condition cause) [] () := by
  subst h
  exact takes_pure

/-! ## Decoders that look at what they pass -/

/-- Whatever the decoder gives comes from the bytes that it passes, `n` or more. -/
def Local {α : Type} (n : Nat) (d : Decoder α) : Prop :=
  ∀ c a c', d c = .ok (a, c') → ∃ bytes, c.Passed bytes c' ∧ n ≤ bytes.length ∧ Takes d bytes a

theorem Local.mono (h : Local n d) (hm : m ≤ n) : Local m d := by
  intro c a c' ha
  obtain ⟨bytes, hpass, hlen, htakes⟩ := h c a c' ha
  exact ⟨bytes, hpass, Nat.le_trans hm hlen, htakes⟩

theorem Local.weaken (h : Local n d) : Local 0 d := h.mono (Nat.zero_le n)

theorem local_pure : Local 0 (pure a) := by
  rintro c _ _ ⟨⟩
  exact ⟨[], Cursor.passed_nil, Nat.le_refl 0, takes_pure⟩

theorem local_fail {cause : LoadCause} : Local n (fail cause : Decoder α) :=
  fun _ _ _ h => absurd h fail_ne_ok

theorem Local.bind (h : Local n d) (hf : ∀ a, Local m (f a)) : Local (n + m) (d >>= f) := by
  intro c b c' hb
  obtain ⟨a, middle, ha, hb⟩ := bind_eq_ok_iff.mp hb
  obtain ⟨bytes, hpass, hlen, htakes⟩ := h c a middle ha
  obtain ⟨more, hpass', hlen', htakes'⟩ := hf a middle b c' hb
  refine ⟨bytes ++ more, hpass.trans hpass', ?_, htakes.bind htakes'⟩
  rw [List.length_append]
  omega

/-- The bytes of the first decoder are enough. -/
theorem Local.first (h : Local n d) (hf : ∀ a, Local 0 (f a)) : Local n (d >>= f) := h.bind hf

/-- The bytes of the second decoder are enough. -/
theorem Local.second (h : Local m d) (hf : ∀ a, Local n (f a)) : Local n (d >>= f) :=
  (h.weaken.bind hf).mono (Nat.zero_add n).ge

theorem local_require {condition : Bool} {cause : LoadCause} : Local 0 (require condition cause) := by
  unfold require
  split
  · exact local_pure
  · exact local_fail

/-- A decoder that gives values from their spellings looks at nothing else. -/
theorem local_of_eq_ok_iff {S : List UInt8 → α → Prop}
    (h : ∀ c c' a, d c = .ok (a, c') ↔ ∃ bytes, c.Passed bytes c' ∧ S bytes a)
    (hn : ∀ bytes a, S bytes a → n ≤ bytes.length) : Local n d := by
  intro c a c' ha
  obtain ⟨bytes, hpass, hs⟩ := (h c c' a).mp ha
  exact ⟨bytes, hpass, hn _ _ hs, fun offset rest =>
    (h _ _ _).mpr ⟨bytes, ⟨rfl, rfl⟩, hs⟩⟩

/-! ### Bytes and integers -/

theorem require_eq_ok_iff {condition : Bool} {cause : LoadCause} :
    require condition cause c = .ok ((), c') ↔ condition = true ∧ c' = c := by
  unfold require
  split
  · rw [pure_eq_ok_iff]
    simp [*]
  · exact iff_of_false fail_ne_ok (by simp [*])

theorem byte_eq_ok_iff {b : UInt8} : byte c = .ok (b, c') ↔ c.Passed [b] c' := by
  constructor
  · obtain ⟨offset, _ | ⟨b', rest⟩⟩ := c
    · exact nofun
    · rintro ⟨⟩
      exact ⟨rfl, rfl⟩
  · intro hpass
    obtain ⟨offset, rest, rfl, rfl⟩ := hpass.cases
    rfl

theorem bytes_eq_ok_iff {size : Nat} {content : List UInt8} :
    Decoder.bytes size c = .ok (content, c') ↔ c.Passed content c' ∧ content.length = size := by
  unfold Decoder.bytes
  constructor
  · intro h
    split at h
    · cases h
    · have hlength : (c.rest.take size).length = size := List.length_take_of_le (by omega)
      cases h
      refine ⟨⟨(List.take_append_drop size c.rest).symm, ?_⟩, hlength⟩
      rw [hlength]
  · rintro ⟨hpass, rfl⟩
    obtain ⟨offset, rest, rfl, rfl⟩ := hpass.cases
    rw [if_neg (by simp)]
    simp

theorem fixed_eq_ok_iff {size v : Nat} : fixed size c = .ok (v, c') ↔
    ∃ content, c.Passed content c' ∧ content.length = size ∧ Reader.littleEndian content = v := by
  induction size generalizing c c' v with
  | zero =>
    rw [fixed, pure_eq_ok_iff]
    constructor
    · rintro ⟨rfl, rfl⟩
      exact ⟨[], Cursor.passed_nil, rfl, rfl⟩
    · rintro ⟨content, hpass, hlen, rfl⟩
      obtain rfl := List.eq_nil_of_length_eq_zero hlen
      obtain ⟨offset, rest, rfl, rfl⟩ := hpass.cases
      exact ⟨rfl, rfl⟩
  | succ size ih =>
    simp only [fixed, bind_eq_ok_iff, pure_eq_ok_iff, byte_eq_ok_iff, ih]
    constructor
    · rintro ⟨low, middle, hlow, _, _, ⟨content, hpass, hlen, rfl⟩, rfl, rfl⟩
      exact ⟨low :: content, hlow.trans hpass, congrArg (· + 1) hlen, rfl⟩
    · rintro ⟨_ | ⟨low, content⟩, hpass, hlen, rfl⟩
      · exact absurd hlen (by simp)
      obtain ⟨offset, rest, rfl, rfl⟩ := hpass.cases
      refine ⟨low, ⟨offset + 1, content ++ rest⟩, ⟨rfl, rfl⟩, Reader.littleEndian content, _,
        ⟨content, ⟨rfl, ?_⟩, Nat.succ.inj hlen, rfl⟩, rfl, rfl⟩
      rw [List.length_cons]
      simp only
      omega

theorem local_byte : Local 1 byte :=
  local_of_eq_ok_iff (S := fun bytes b => bytes = [b])
    (fun _ _ _ => byte_eq_ok_iff.trans (by simp)) (by simp)

theorem local_bytes (size : Nat) : Local size (Decoder.bytes size) :=
  local_of_eq_ok_iff (S := fun bytes content => bytes = content ∧ content.length = size)
    (fun _ _ _ => bytes_eq_ok_iff.trans (by simp)) (by simp +contextual)

theorem local_fixed (size : Nat) : Local size (fixed size) :=
  local_of_eq_ok_iff (fun _ _ _ => fixed_eq_ok_iff) fun _ _ h => h.1.ge

theorem local_u32 : Local 1 u32 :=
  local_of_eq_ok_iff (fun _ _ _ => u32_eq_ok_iff) fun _ _ h => h.marked.length_pos

theorem local_s32 : Local 1 s32 :=
  local_of_eq_ok_iff (fun _ _ _ => s32_eq_ok_iff) fun _ _ h => h.marked.length_pos

theorem local_s64 : Local 1 s64 :=
  local_of_eq_ok_iff (fun _ _ _ => s64_eq_ok_iff) fun _ _ h => h.marked.length_pos

/-! ### Repetition -/

theorem count_eq_ok_iff : count c = .ok (n, c') ↔
    n ≤ c'.rest.length ∧ ∃ bytes, c.Passed bytes c' ∧ IntType.u32.Spells bytes n := by
  unfold count
  rw [bind_eq_ok_iff]
  constructor
  · rintro ⟨v, middle, hv, hn⟩
    obtain ⟨bytes, hpass, hspells⟩ := u32_eq_ok_iff.mp hv
    split at hn
    · cases hn
    · rename_i hlen
      cases hn
      exact ⟨by omega, bytes, hpass, hspells⟩
  · rintro ⟨hlen, bytes, hpass, hspells⟩
    have hn : n.toUInt32.toNat = n := toNat_toUInt32 (Int.ofNat_lt.mp hspells.bound)
    refine ⟨n.toUInt32, c', u32_eq_ok_iff.mpr ⟨bytes, hpass, by rwa [hn]⟩, ?_⟩
    show (if c'.rest.length < n.toUInt32.toNat then _ else Except.ok (n.toUInt32.toNat, c')) = _
    rw [hn, if_neg (by omega)]

theorem takes_count {f : Nat → Decoder β} (hspells : IntType.u32.Spells bytes n)
    (hlen : n ≤ more.length) (hf : Takes (f n) more b) : Takes (count >>= f) (bytes ++ more) b := by
  intro offset rest
  have hcount : count ⟨offset, bytes ++ (more ++ rest)⟩ =
      .ok (n, ⟨offset + bytes.length, more ++ rest⟩) := by
    refine count_eq_ok_iff.mpr ⟨?_, bytes, ⟨rfl, rfl⟩, hspells⟩
    rw [List.length_append]
    omega
  rw [List.append_assoc, bind_ok hcount, hf, List.length_append, Nat.add_assoc]

/-- A count alone looks at how many bytes are left. Where as many are then passed, that does not
matter. -/
theorem local_counted {f : Nat → Decoder β} (hf : ∀ n, Local n (f n)) : Local 1 (count >>= f) := by
  intro c b c' hb
  obtain ⟨n, middle, hn, hb⟩ := bind_eq_ok_iff.mp hb
  obtain ⟨-, bytes, hpass, hspells⟩ := count_eq_ok_iff.mp hn
  obtain ⟨more, hpass', hlen, htakes⟩ := hf n middle b c' hb
  refine ⟨bytes ++ more, hpass.trans hpass', ?_, takes_count hspells hlen htakes⟩
  have := hspells.marked.length_pos
  rw [List.length_append]
  omega

theorem Local.times (h : Local 1 d) (n : Nat) : Local n (times d n) := by
  induction n with
  | zero => exact local_pure
  | succ n ih =>
    refine Local.mono (n := 1 + n) ?_ (Nat.add_comm n 1).le
    exact h.bind fun first => ih.first fun rest => local_pure

theorem Local.vector (h : Local 1 d) : Local 1 (vector d) := local_counted h.times

theorem local_name : Local 1 name :=
  local_counted fun n => (local_bytes n).first fun _ => local_pure

/-! ## Decoders that go to the end -/

/-- Whatever the decoder gives comes from all bytes of its window. -/
def Whole {α : Type} (d : Decoder α) : Prop :=
  ∀ c a c', d c = .ok (a, c') → c' = ⟨c.offset + c.rest.length, []⟩ ∧ Exhausts d c.rest a

/-- What the decoder gives at the end of a window comes from the bytes of the window. -/
def Windowed {α : Type} (d : Decoder α) : Prop :=
  ∀ c a offset, d c = .ok (a, ⟨offset, []⟩) → Exhausts d c.rest a

theorem Whole.windowed (h : Whole d) : Windowed d := fun c a _ ha => (h c a _ ha).2

theorem Local.windowed (h : Local n d) : Windowed d := by
  intro c a offset ha
  obtain ⟨bytes, hpass, -, htakes⟩ := h c a _ ha
  rw [← (hpass.eq_of_rest rfl).1]
  exact htakes.exhausts

theorem whole_remainder : Whole remainder := by
  rintro c _ _ ⟨⟩
  exact ⟨rfl, fun _ => rfl⟩

theorem Local.whole_bind (h : Local n d) (hf : ∀ a, Whole (f a)) : Whole (d >>= f) := by
  intro c b c' hb
  obtain ⟨a, middle, ha, hb⟩ := bind_eq_ok_iff.mp hb
  obtain ⟨bytes, ⟨hrest, hoffset⟩, -, htakes⟩ := h c a middle ha
  obtain ⟨rfl, hexhausts⟩ := hf a middle b c' hb
  rw [hrest, hoffset, List.length_append, Nat.add_assoc]
  exact ⟨rfl, htakes.exhausts_bind hexhausts⟩

theorem Whole.bind (h : Whole d) (hf : ∀ a, Local 0 (f a)) : Whole (d >>= f) := by
  intro c b c' hb
  obtain ⟨a, middle, ha, hb⟩ := bind_eq_ok_iff.mp hb
  obtain ⟨rfl, hexhausts⟩ := h c a middle ha
  obtain ⟨bytes, hpass, -, htakes⟩ := hf a _ b c' hb
  -- behind the end there is nothing left to pass
  obtain ⟨rfl, hrest⟩ := List.append_eq_nil_iff.mp hpass.1.symm
  obtain ⟨-, rfl⟩ := hpass.eq_of_rest hrest
  exact ⟨rfl, hexhausts.bind htakes⟩

/-- The items of an `upTo` with room for all of them, piece by piece. -/
theorem Local.exists_pieces_upTo (h : Local 1 d) {l : List α} (hn : c.rest.length ≤ n)
    (hl : upTo d n c = .ok (l, c')) : ∃ pieces, c.Passed pieces.flatten c' ∧ c'.rest = [] ∧
      List.Forall₂ (fun piece a => piece ≠ [] ∧ Takes d piece a) pieces l := by
  induction n generalizing c l with
  | zero =>
    cases hl
    exact ⟨[], Cursor.passed_nil, List.eq_nil_of_length_eq_zero (by omega), .nil⟩
  | succ n ih =>
    rw [upTo, bind_ok (d := atEnd) rfl] at hl
    split at hl
    · rename_i hend
      cases hl
      exact ⟨[], Cursor.passed_nil, List.isEmpty_iff.mp hend, .nil⟩
    · obtain ⟨a, middle, ha, hl⟩ := bind_eq_ok_iff.mp hl
      obtain ⟨rest, last, hrest, hpure⟩ := bind_eq_ok_iff.mp hl
      obtain ⟨rfl, rfl⟩ := pure_eq_ok_iff.mp hpure
      obtain ⟨piece, hpass, hlen, htakes⟩ := h _ _ _ ha
      have hshort : middle.rest.length ≤ n := by
        have := congrArg List.length hpass.1
        rw [List.length_append] at this
        omega
      obtain ⟨pieces, hpasses, hend, hpieces⟩ := ih hshort hrest
      exact ⟨piece :: pieces, hpass.trans hpasses, hend,
        .cons ⟨List.ne_nil_of_length_pos hlen, htakes⟩ hpieces⟩

theorem exhausts_upTo {pieces : List (List UInt8)} {l : List α}
    (h : List.Forall₂ (fun piece a => piece ≠ [] ∧ Takes d piece a) pieces l)
    (hn : pieces.flatten.length ≤ n) : Exhausts (upTo d n) pieces.flatten l := by
  induction h generalizing n with
  | nil => cases n <;> exact fun _ => rfl
  | @cons piece a pieces l hpiece _ ih =>
    obtain ⟨hne, htakes⟩ := hpiece
    have hpos := List.length_pos_iff.mpr hne
    rw [List.flatten_cons, List.length_append] at hn
    cases n with
    | zero => omega
    | succ n =>
      have hrest : Exhausts (upTo d n >>= fun l => pure (a :: l)) pieces.flatten (a :: l) :=
        (ih (by omega)).bind takes_pure
      intro offset
      rw [upTo, bind_ok (d := atEnd) rfl, if_neg (by simp [hne])]
      exact htakes.exhausts_bind (f := fun a => upTo d n >>= fun l => pure (a :: l)) hrest offset

/-- Items to the end of a window are its pieces. -/
theorem Local.untilEnd_eq_ok_iff (h : Local 1 d) {l : List α} :
    untilEnd d c = .ok (l, c') ↔ c' = ⟨c.offset + c.rest.length, []⟩ ∧
      ∃ pieces, c.rest = pieces.flatten ∧
        List.Forall₂ (fun piece a => piece ≠ [] ∧ Takes d piece a) pieces l := by
  constructor
  · intro hl
    obtain ⟨pieces, hpass, hend, hpieces⟩ := h.exists_pieces_upTo (Nat.le_refl _) hl
    obtain ⟨hflat, hc⟩ := hpass.eq_of_rest hend
    exact ⟨hc, pieces, hflat.symm, hpieces⟩
  · rintro ⟨rfl, pieces, hflat, hpieces⟩
    have := exhausts_upTo hpieces (Nat.le_refl _) c.offset
    rw [← hflat] at this
    exact this

theorem Local.untilEnd (h : Local 1 d) : Whole (untilEnd d) := by
  intro c l c' hl
  obtain ⟨hc, hpieces⟩ := h.untilEnd_eq_ok_iff.mp hl
  exact ⟨hc, fun offset => h.untilEnd_eq_ok_iff.mpr ⟨rfl, hpieces⟩⟩

/-! ## Windows -/

theorem within_eq_ok_iff {size : Nat} {mismatch : LoadCause} :
    within size mismatch d c = .ok (a, c') ↔ ∃ window offset, c.Passed window c' ∧
      window.length = size ∧ d ⟨c.offset, window⟩ = .ok (a, ⟨offset, []⟩) := by
  unfold within
  split
  · rename_i hlen
    refine iff_of_false nofun ?_
    rintro ⟨window, -, ⟨hrest, -⟩, hsize, -⟩
    rw [hrest, List.length_append] at hlen
    omega
  · rename_i hlen
    have htake : (c.rest.take size).length = size := List.length_take_of_le (by omega)
    constructor
    · intro ha
      split at ha
      · cases ha
      · rename_i hd
        cases ha
        refine ⟨c.rest.take size, _, ⟨(List.take_append_drop size c.rest).symm, ?_⟩, htake, hd⟩
        rw [htake]
      · cases ha
    · rintro ⟨window, offset, ⟨hrest, hoffset⟩, hsize, hd⟩
      obtain ⟨offset', rest'⟩ := c'
      simp only at hrest hoffset
      rw [hrest, List.take_left' hsize, hd, List.drop_left' hsize, hoffset, hsize]

theorem Exhausts.takes_within (h : Exhausts d bytes a) (mismatch : LoadCause) :
    Takes (within bytes.length mismatch d) bytes a :=
  fun offset _ => within_eq_ok_iff.mpr ⟨bytes, offset + bytes.length, ⟨rfl, rfl⟩, rfl, h offset⟩

/-- **A part of declared size is read from its own bytes.** -/
theorem Windowed.within (h : Windowed d) (size : Nat) (mismatch : LoadCause) :
    Local size (within size mismatch d) := by
  intro c a c' ha
  obtain ⟨window, offset, hpass, rfl, hd⟩ := within_eq_ok_iff.mp ha
  exact ⟨window, hpass, Nat.le_refl _, (h _ _ _ hd).takes_within mismatch⟩

/-! ## Instructions -/

theorem local_valueType : Local 1 valueType := by
  refine local_byte.first fun b => ?_
  split
  · exact local_pure
  · exact local_fail

theorem local_blockType : Local 1 blockType := by
  refine local_byte.first fun b => ?_
  split
  · exact local_pure
  · split
    · exact local_pure
    · exact local_fail

theorem local_reservedZero : Local 1 reservedZero := local_byte.first fun _ => local_require

theorem local_constant (t : ValueType) : Local 1 (constant t) := by
  cases t with
  | i32 => exact local_s32.first fun _ => local_pure
  | i64 => exact local_s64.first fun _ => local_pure
  | f32 => exact ((local_fixed 4).mono (by decide)).first fun _ => local_pure
  | f64 => exact ((local_fixed 8).mono (by decide)).first fun _ => local_pure

theorem local_memArg : Local 1 memArg :=
  local_u32.first fun _ => local_u32.weaken.first fun _ => local_pure

theorem local_labelTable : Local 1 labelTable :=
  local_u32.vector.first fun _ => local_u32.weaken.first fun _ => local_pure

theorem local_operands (op : Opcode) : Local 0 (operands op) := by
  cases op with
  | block | loop | ifThen => exact local_blockType.weaken.first fun _ => local_pure
  | brTable => exact local_labelTable.weaken.first fun _ => local_pure
  | callIndirect =>
    exact local_u32.weaken.first fun _ => local_reservedZero.weaken.first fun _ => local_pure
  | br | brIf | call | localGet | localSet | localTee | globalGet | globalSet =>
    exact local_u32.weaken.first fun _ => local_pure
  | load op | store op => exact local_memArg.weaken.first fun _ => local_pure
  | memorySize | memoryGrow => exact local_reservedZero.weaken.first fun _ => local_pure
  | const t => exact (local_constant t).weaken.first fun _ => local_pure
  | unreachable | nop | elseThen | blockEnd | ret | drop | select | numeric op => exact local_pure

theorem local_instr : Local 1 instr := by
  refine local_byte.first fun b => ?_
  split
  · exact local_operands _
  · exact local_fail

theorem local_initExpr : Local 1 initExpr := by
  have hend : ∀ e : InitExpr, Local 0 (byte >>= fun last =>
      require (Opcode.ofByte? last = some .blockEnd) .constantEnd >>= fun _ => pure e) :=
    fun e => local_byte.weaken.first fun last => local_require.first fun _ => local_pure
  refine local_byte.first fun b => ?_
  split
  · exact (local_constant _).weaken.first fun v => local_pure.first hend
  · exact local_u32.weaken.first fun n => local_pure.first hend
  · exact local_fail.first hend

/-! ## Entries of sections -/

theorem local_funcType : Local 1 funcType :=
  local_byte.first fun _ => local_require.first fun _ =>
    local_valueType.vector.weaken.first fun _ =>
      local_valueType.vector.weaken.first fun _ => local_pure

theorem local_limits : Local 1 limits := by
  refine local_byte.first fun flags => local_require.first fun _ =>
    local_u32.weaken.first fun min => ?_
  split
  · exact local_pure
  · exact local_u32.weaken.first fun max => local_require.first fun _ => local_pure

theorem local_memoryLimits : Local 1 memoryLimits :=
  local_limits.first fun _ => local_require.first fun _ => local_pure

theorem local_tableLimits : Local 1 tableLimits :=
  local_byte.first fun _ => local_require.first fun _ => local_limits.weaken

theorem local_mutability : Local 1 mutability :=
  local_byte.first fun _ => local_require.first fun _ => local_pure

theorem local_typeIndex (known : Nat) : Local 1 (typeIndex known) :=
  local_u32.first fun _ => local_require.first fun _ => local_pure

theorem local_importEntry (known : Nat) : Local 1 (importEntry known) := by
  refine local_name.first fun module => local_name.weaken.first fun field =>
    local_byte.weaken.first fun kind => ?_
  split
  · exact (local_typeIndex known).weaken.first fun _ => local_pure
  · exact local_tableLimits.weaken.first fun _ => local_pure
  · exact local_memoryLimits.weaken.first fun _ => local_pure
  · exact local_valueType.weaken.first fun _ => local_mutability.weaken.first fun _ => local_pure
  · exact local_fail

theorem local_exportKind : Local 1 exportKind := by
  refine local_byte.first fun b => ?_
  split
  · exact local_pure
  · exact local_pure
  · exact local_pure
  · exact local_pure
  · exact local_fail

theorem local_exportEntry : Local 1 exportEntry :=
  local_name.first fun _ => local_exportKind.weaken.first fun _ =>
    local_u32.weaken.first fun _ => local_pure

theorem local_globalEntry : Local 1 globalEntry :=
  local_valueType.first fun _ => local_mutability.weaken.first fun _ =>
    local_initExpr.weaken.first fun _ => local_pure

theorem local_elementSegment : Local 1 elementSegment :=
  local_u32.first fun _ => local_require.first fun _ => local_initExpr.weaken.first fun _ =>
    local_u32.vector.weaken.first fun _ => local_pure

theorem local_dataSegment : Local 1 dataSegment :=
  local_u32.first fun _ => local_require.first fun _ => local_initExpr.weaken.first fun _ =>
    (local_counted fun n => (local_bytes n).first fun _ => local_pure).weaken

/-! ## Function bodies -/

/-- The declarations of the locals, in front of the instructions. -/
def localDeclarations : Decoder (List ValueType) := count >>= localGroups maxLocals

/-- Every group has a byte for its type. -/
theorem local_localGroups (room groups : Nat) : Local groups (localGroups room groups) := by
  induction groups generalizing room with
  | zero => exact local_pure
  | succ groups ih =>
    refine Local.mono (n := 1 + groups) ?_ (Nat.add_comm groups 1).le
    exact local_u32.bind fun n => local_require.second fun _ =>
      local_valueType.second fun t => (ih _).first fun rest => local_pure

theorem local_localDeclarations : Local 1 localDeclarations :=
  local_counted (local_localGroups maxLocals)

/-- The instructions of a body, behind its locals. -/
def bodyCode (locals : List ValueType) : Decoder Body := do
  let code ← untilEnd instr
  require (code.getLast? = some .blockEnd) .bodyEnd
  match Nesting.resolve code with
  | .ok resolved => pure ⟨locals, resolved⟩
  | .error e => fail (.nesting e)

theorem body_eq : body = localDeclarations >>= bodyCode := (bind_assoc _ _ _).symm

theorem whole_bodyCode (locals : List ValueType) : Whole (bodyCode locals) := by
  refine local_instr.untilEnd.bind fun code => local_require.first fun _ => ?_
  split
  · exact local_pure
  · exact local_fail

theorem whole_body : Whole body := by
  rw [body_eq]
  exact local_localDeclarations.whole_bind whole_bodyCode

/-- **A function body is read from the bytes of its declared size.** -/
theorem local_sizedBody : Local 1 sizedBody :=
  local_u32.first fun _ => (whole_body.windowed.within _ _).weaken

theorem local_functionBodies (declared : Nat) : Local 1 (functionBodies declared) :=
  local_counted fun n => local_require.second fun _ => local_sizedBody.times n

/-! ## Whole sections -/

theorem whole_custom : Whole custom :=
  local_name.whole_bind fun _ => whole_remainder.bind fun _ => local_pure

/-- **A section is read from the bytes of its declared size.** -/
theorem windowed_readSection (d : Draft) (id : UInt8) : Windowed (d.readSection id) := by
  unfold Draft.readSection
  split
  · exact (whole_custom.bind fun _ => local_pure).windowed
  · exact (local_funcType.vector.first fun _ => local_pure).windowed
  · exact ((local_importEntry _).vector.first fun _ => local_pure).windowed
  · exact ((local_typeIndex _).vector.first fun _ => local_pure).windowed
  · exact (local_tableLimits.vector.first fun _ => local_pure).windowed
  · exact (local_memoryLimits.vector.first fun _ => local_require.first fun _ =>
      local_pure).windowed
  · exact (local_globalEntry.vector.first fun _ => local_pure).windowed
  · exact (local_exportEntry.vector.first fun _ => local_pure).windowed
  · exact (local_u32.first fun _ => local_pure).windowed
  · exact (local_elementSegment.vector.first fun _ => local_pure).windowed
  · exact ((local_functionBodies _).first fun _ => local_pure).windowed
  · exact (local_dataSegment.vector.first fun _ => local_pure).windowed
  · exact local_pure.windowed

end Decoder

end WasmDebugger
