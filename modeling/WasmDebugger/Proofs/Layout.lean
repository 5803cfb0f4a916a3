import WasmDebugger.Proofs.Locality
import WasmDebugger.Proofs.RoundTrip

/-!
# The layout of accepted bytes

Bytes that are accepted are a header and sections, with nothing between them and nothing left over.

* `RawSection`, `RawBody`: the parts as they stand in the bytes, with the spellings of their sizes.
* `RawSection.Adds`: what is true of a section that was read into a draft. `Draft.Reading`: the
  same of sections one behind the other.
* `RawBody.Spells`: a function body whose size is that of its locals and instructions.
* `ofBytes?_eq_ok_iff`: the bytes of the sections that were read are all there is.
* **`laidOut_of_ofBytes?`**: the layout of a module that was read, section by section and body by
  body.
* **`one_memory_iff_of_ofBytes?`**: which of them have one memory at most.
-/

namespace WasmDebugger

open Decoder

/-! ## Parts in the bytes -/

/-- A section: its id, the spelling of its size, and its payload. -/
structure RawSection where
  id : UInt8
  size : List UInt8
  payload : List UInt8

/-- A function body: the spelling of its size, the declarations of its locals, and its
instructions one by one. -/
structure RawBody where
  size : List UInt8
  locals : List UInt8
  code : List (List UInt8)

namespace RawSection

def bytes (s : RawSection) : List UInt8 := s.id :: (s.size ++ s.payload)

/-- The highest id so far, behind this section. Custom sections do not count. -/
def next (s : RawSection) (last : UInt8) : UInt8 := if s.id = 0 then last else s.id

/-- The section was read into a draft, behind a section with id `last`. -/
structure Adds (s : RawSection) (last : UInt8) (d d' : Draft) : Prop where
  size : IntType.u32.Spells s.size s.payload.length
  known : s.id ≤ Draft.maxSectionId
  order : s.id = 0 ∨ last < s.id
  /-- The decoder of the payload sees the payload alone, and takes all of it. -/
  payload : Exhausts (d.readSection s.id) s.payload d'
  /-- What comes behind the section makes no difference. -/
  taken : Takes (oneSection last d) s.bytes (s.next last, d')

end RawSection

namespace RawBody

/-- What the size is the size of. -/
def content (raw : RawBody) : List UInt8 := raw.locals ++ raw.code.flatten

def bytes (raw : RawBody) : List UInt8 := raw.size ++ raw.content

/-- The bytes of a function body and what was read from them. -/
structure Spells (raw : RawBody) (b : Body) : Prop where
  size : IntType.u32.Spells raw.size raw.content.length
  locals : Takes localDeclarations raw.locals b.locals
  code : ∃ instrs, List.Forall₂ (fun piece i => piece ≠ [] ∧ Takes instr piece i) raw.code instrs ∧
    Nesting.resolve instrs = .ok b.code
  /-- What comes behind the body makes no difference. -/
  taken : Takes sizedBody raw.bytes b

end RawBody

/-- Sections one behind the other, from one draft to the next. -/
inductive Draft.Reading : UInt8 → Draft → List RawSection → Draft → Prop
  | nil (last : UInt8) (d : Draft) : Reading last d [] d
  | cons {last : UInt8} {d d₁ d' : Draft} {s : RawSection} {rest : List RawSection}
    (first : s.Adds last d d₁) (more : Reading (s.next last) d₁ rest d') :
    Reading last d (s :: rest) d'

/-- A code section: a count, and so many bodies. -/
def CodeLayout (payload : List UInt8) (bodies : List Body) : Prop :=
  ∃ count raws, payload = count ++ raws.flatMap RawBody.bytes ∧
    IntType.u32.Spells count bodies.length ∧ List.Forall₂ RawBody.Spells raws bodies

/-! ## Inversion -/

namespace Decoder

variable {α ρ : Type} {c c' : Cursor} {n : Nat}

/-- Items one behind the other, as many as are asked for. -/
theorem exists_pieces_times {d : Decoder α} {Spelled : ρ → α → Prop} {enc : ρ → List UInt8}
    (h : ∀ c a c', d c = .ok (a, c') → ∃ r, c.Passed (enc r) c' ∧ Spelled r a) {l : List α}
    (hl : times d n c = .ok (l, c')) : l.length = n ∧
      ∃ pieces, c.Passed (pieces.flatMap enc) c' ∧ List.Forall₂ Spelled pieces l := by
  induction n generalizing c l with
  | zero =>
    cases hl
    exact ⟨rfl, [], Cursor.passed_nil, .nil⟩
  | succ n ih =>
    obtain ⟨a, middle, ha, hl⟩ := bind_eq_ok_iff.mp hl
    obtain ⟨rest, last, hrest, hpure⟩ := bind_eq_ok_iff.mp hl
    obtain ⟨rfl, rfl⟩ := pure_eq_ok_iff.mp hpure
    obtain ⟨r, hpass, hr⟩ := h _ _ _ ha
    obtain ⟨hlen, pieces, hpasses, hpieces⟩ := ih hrest
    exact ⟨congrArg (· + 1) hlen, r :: pieces, hpass.trans hpasses, .cons hr hpieces⟩

/-! ### Function bodies -/

/-- The instructions of a body are the pieces of its window. -/
theorem exists_pieces_bodyCode {locals : List ValueType} {b : Body}
    (h : bodyCode locals c = .ok (b, c')) : b.locals = locals ∧ ∃ pieces instrs,
      c.rest = pieces.flatten ∧
      List.Forall₂ (fun piece i => piece ≠ [] ∧ Takes instr piece i) pieces instrs ∧
      Nesting.resolve instrs = .ok b.code := by
  obtain ⟨instrs, middle, hinstrs, h⟩ := bind_eq_ok_iff.mp h
  obtain ⟨_, last, -, h⟩ := bind_eq_ok_iff.mp h
  obtain ⟨-, pieces, hflat, hpieces⟩ := local_instr.untilEnd_eq_ok_iff.mp hinstrs
  cases hresolve : Nesting.resolve instrs with
  | error e =>
    rw [hresolve] at h
    exact absurd h fail_ne_ok
  | ok resolved =>
    rw [hresolve] at h
    obtain ⟨rfl, -⟩ := pure_eq_ok_iff.mp h
    exact ⟨rfl, pieces, instrs, hflat, hpieces, hresolve⟩

theorem exists_raw_sizedBody {b : Body} (h : sizedBody c = .ok (b, c')) :
    ∃ raw : RawBody, c.Passed raw.bytes c' ∧ raw.Spells b := by
  obtain ⟨size, middle, hsize, hbody⟩ := bind_eq_ok_iff.mp h
  obtain ⟨sizeBytes, hpass, hspells⟩ := u32_eq_ok_iff.mp hsize
  obtain ⟨window, offset, hwindow, hlen, hin⟩ := within_eq_ok_iff.mp hbody
  rw [body_eq] at hin
  obtain ⟨locals, inner, hlocals, hcode⟩ := bind_eq_ok_iff.mp hin
  obtain ⟨localBytes, hpassLocals, -, htakesLocals⟩ := local_localDeclarations _ _ _ hlocals
  obtain ⟨rfl, pieces, instrs, hflat, hpieces, hresolve⟩ := exists_pieces_bodyCode hcode
  have hcontent : window = localBytes ++ pieces.flatten := by
    rw [← hflat]
    exact hpassLocals.1
  obtain ⟨bytes, hpassAll, -, htakesAll⟩ := local_sizedBody _ _ _ h
  have hbytes : bytes = sizeBytes ++ window :=
    List.append_cancel_right (hpassAll.1.symm.trans (hpass.trans hwindow).1)
  refine ⟨⟨sizeBytes, localBytes, pieces⟩, ?_, ?_, htakesLocals, ⟨instrs, hpieces, hresolve⟩, ?_⟩
  · rw [RawBody.bytes, RawBody.content, ← hcontent]
    exact hpass.trans hwindow
  · rw [RawBody.content, ← hcontent, hlen]
    exact hspells
  · rw [RawBody.bytes, RawBody.content, ← hcontent, ← hbytes]
    exact htakesAll

theorem codeLayout_of_functionBodies {declared : Nat} {bodies : List Body}
    (h : functionBodies declared c = .ok (bodies, c')) (hend : c'.rest = []) :
    CodeLayout c.rest bodies := by
  obtain ⟨n, middle, hcount, hrest⟩ := bind_eq_ok_iff.mp h
  obtain ⟨_, last, hrequire, hbodies⟩ := bind_eq_ok_iff.mp hrest
  obtain ⟨-, count, hpass, hspells⟩ := count_eq_ok_iff.mp hcount
  obtain ⟨-, rfl⟩ := require_eq_ok_iff.mp hrequire
  obtain ⟨rfl, raws, hpasses, hraws⟩ :=
    exists_pieces_times (fun _ _ _ => exists_raw_sizedBody) hbodies
  exact ⟨count, raws, ((hpass.trans hpasses).eq_of_rest hend).1.symm, hspells, hraws⟩

/-! ### Sections -/

variable {last : UInt8} {d d' : Draft} {r : UInt8 × Draft}

theorem takes_oneSection {s : RawSection} (hsize : IntType.u32.Spells s.size s.payload.length)
    (hknown : decide (s.id ≤ Draft.maxSectionId) = true)
    (horder : (decide (s.id = 0) || decide (last < s.id)) = true)
    (hread : Exhausts (d.readSection s.id) s.payload d') :
    Takes (oneSection last d) s.bytes (s.next last, d') := by
  have hlen : s.payload.length.toUInt32.toNat = s.payload.length :=
    toNat_toUInt32 (Int.ofNat_lt.mp hsize.bound)
  have hu32 : Takes u32 s.size s.payload.length.toUInt32 := fun offset rest =>
    u32_eq_ok_iff.mpr ⟨s.size, ⟨rfl, rfl⟩, by rwa [hlen]⟩
  have hwithin := hread.takes_within .sectionSize
  rw [← hlen] at hwithin
  have h : Takes (oneSection last d)
      ([s.id] ++ (s.size ++ ([] ++ ([] ++ (s.payload ++ []))))) (s.next last, d') :=
    (takes_byte s.id).bind <| hu32.bind <| (takes_require hknown).bind <|
      (takes_require horder).bind <| hwithin.bind takes_pure
  simpa [RawSection.bytes] using h

theorem oneSection_eq_ok_iff : oneSection last d c = .ok (r, c') ↔
    ∃ (s : RawSection) (d' : Draft), c.Passed s.bytes c' ∧ s.Adds last d d' ∧
      r = (s.next last, d') := by
  constructor
  · intro h
    unfold oneSection at h
    obtain ⟨id, c₁, hid, h₁⟩ := bind_eq_ok_iff.mp h
    obtain ⟨size, c₂, hsize, h₂⟩ := bind_eq_ok_iff.mp h₁
    obtain ⟨_, c₃, hknown, h₃⟩ := bind_eq_ok_iff.mp h₂
    obtain ⟨_, c₄, horder, h₄⟩ := bind_eq_ok_iff.mp h₃
    obtain ⟨d', c₅, hwithin, hpure⟩ := bind_eq_ok_iff.mp h₄
    obtain ⟨rfl, rfl⟩ := pure_eq_ok_iff.mp hpure
    obtain ⟨hknown', rfl⟩ := require_eq_ok_iff.mp hknown
    obtain ⟨horder', rfl⟩ := require_eq_ok_iff.mp horder
    obtain ⟨sizeBytes, hpass, hspells⟩ := u32_eq_ok_iff.mp hsize
    obtain ⟨payload, offset, hpayload, hlen, hread⟩ := within_eq_ok_iff.mp hwithin
    have hexhausts := windowed_readSection d id _ _ _ hread
    rw [← hlen] at hspells
    refine ⟨⟨id, sizeBytes, payload⟩, d', (byte_eq_ok_iff.mp hid).trans (hpass.trans hpayload),
      ⟨hspells, by simpa using hknown', by simpa using horder', hexhausts, ?_⟩, rfl⟩
    exact takes_oneSection hspells hknown' horder' hexhausts
  · rintro ⟨s, d', hpass, hadds, rfl⟩
    obtain ⟨offset, rest, rfl, rfl⟩ := hpass.cases
    exact hadds.taken offset rest

/-- At the end of the window there are no more sections. -/
theorem reading_nil_iff {offset : Nat} : (pure d : Decoder Draft) ⟨offset, []⟩ = .ok (d', c') ↔
    c' = ⟨offset, []⟩ ∧
      ∃ secs, [] = secs.flatMap RawSection.bytes ∧ Draft.Reading last d secs d' := by
  rw [pure_eq_ok_iff, and_comm]
  refine and_congr_right fun _ => ⟨?_, ?_⟩
  · rintro rfl
    exact ⟨[], rfl, .nil last d'⟩
  · rintro ⟨_ | ⟨s, rest⟩, hflat, hreading⟩
    · cases hreading
      rfl
    · exact absurd hflat (by simp [RawSection.bytes])

/-- Sections to the end of the window, with room for all of them. -/
theorem sections_eq_ok_iff (hn : c.rest.length ≤ n) : sections last d n c = .ok (d', c') ↔
    c' = ⟨c.offset + c.rest.length, []⟩ ∧
      ∃ secs, c.rest = secs.flatMap RawSection.bytes ∧ Draft.Reading last d secs d' := by
  obtain ⟨offset, bytes⟩ := c
  induction n generalizing offset bytes last d with
  | zero =>
    obtain rfl : bytes = [] := List.eq_nil_of_length_eq_zero (Nat.le_zero.mp hn)
    exact reading_nil_iff
  | succ n ih =>
    rw [sections, bind_ok (d := atEnd) rfl]
    by_cases hempty : bytes = []
    · subst hempty
      exact reading_nil_iff
    rw [if_neg (by simpa using hempty), bind_eq_ok_iff]
    constructor
    · rintro ⟨r, middle, hone, hmore⟩
      obtain ⟨s, d₁, hpass, hadds, rfl⟩ := oneSection_eq_ok_iff.mp hone
      obtain ⟨_, rest, hc, rfl⟩ := hpass.cases
      obtain ⟨rfl, rfl⟩ := Cursor.mk.inj hc
      obtain ⟨rfl, secs, rfl, hreading⟩ := (ih _ _ (by simp [RawSection.bytes] at hn ⊢; omega)).mp hmore
      refine ⟨by simp [Nat.add_assoc], s :: secs, rfl, .cons hadds hreading⟩
    · rintro ⟨rfl, _ | ⟨s, secs⟩, hflat, hreading⟩
      · exact absurd hflat hempty
      · simp only [List.flatMap_cons] at hflat
        subst hflat
        cases hreading with
        | cons first more =>
          refine ⟨_, _, first.taken offset _, (ih _ _ ?_).mpr ⟨?_, secs, rfl, more⟩⟩
          · simp [RawSection.bytes] at hn ⊢
            omega
          · simp [Nat.add_assoc]

/-! ### The whole module -/

/-- The magic number and the version. -/
def headerBytes : List UInt8 := [0x00, 0x61, 0x73, 0x6D, 0x01, 0x00, 0x00, 0x00]

theorem eq_of_littleEndian_one {content : List UInt8} (hlen : content.length = 4)
    (h : Reader.littleEndian content = 1) : content = [1, 0, 0, 0] := by
  obtain ⟨b₀, b₁, b₂, b₃, rfl⟩ : ∃ b₀ b₁ b₂ b₃, content = [b₀, b₁, b₂, b₃] :=
    List.length_eq_four.mp hlen
  simp only [Reader.littleEndian] at h
  have h₀ : b₀ = 1 := UInt8.toNat_inj.mp (show b₀.toNat = 1 by omega)
  have h₁ : b₁ = 0 := UInt8.toNat_inj.mp (show b₁.toNat = 0 by omega)
  have h₂ : b₂ = 0 := UInt8.toNat_inj.mp (show b₂.toNat = 0 by omega)
  have h₃ : b₃ = 0 := UInt8.toNat_inj.mp (show b₃.toNat = 0 by omega)
  rw [h₀, h₁, h₂, h₃]

theorem header_eq_ok_iff : header c = .ok ((), c') ↔ c.Passed headerBytes c' := by
  constructor
  · intro h
    unfold header at h
    obtain ⟨start, c₁, hstart, h₁⟩ := bind_eq_ok_iff.mp h
    obtain ⟨_, c₂, hmagic, h₂⟩ := bind_eq_ok_iff.mp h₁
    obtain ⟨v, c₃, hv, hversion⟩ := bind_eq_ok_iff.mp h₂
    obtain ⟨hstart', rfl⟩ := require_eq_ok_iff.mp hmagic
    obtain ⟨hversion', rfl⟩ := require_eq_ok_iff.mp hversion
    obtain ⟨hpass, -⟩ := bytes_eq_ok_iff.mp hstart
    obtain ⟨content, hpass', hlen, rfl⟩ := fixed_eq_ok_iff.mp hv
    obtain rfl := eq_of_littleEndian_one hlen (of_decide_eq_true hversion')
    obtain rfl : start = magic := of_decide_eq_true hstart'
    exact hpass.trans hpass'
  · intro hpass
    obtain ⟨offset, rest, rfl, rfl⟩ := hpass.cases
    exact header_ok offset rest

theorem module_eq_ok_iff {m : Module} : module c = .ok (m, c') ↔
    c' = ⟨c.offset + c.rest.length, []⟩ ∧
      ∃ secs d, c.rest = headerBytes ++ secs.flatMap RawSection.bytes ∧
        Draft.Reading 0 {} secs d ∧ d.declared.length = d.bodies.length ∧
        d.invalidIndex? = none ∧ m = d.toModule := by
  constructor
  · intro h
    unfold module at h
    obtain ⟨_, c₁, hheader, h₁⟩ := bind_eq_ok_iff.mp h
    obtain ⟨d, c₂, hsections, h₂⟩ := bind_eq_ok_iff.mp h₁
    obtain ⟨_, c₃, hrequire, h₃⟩ := bind_eq_ok_iff.mp h₂
    obtain ⟨hlen, rfl⟩ := require_eq_ok_iff.mp hrequire
    obtain ⟨rfl, secs, hflat, hreading⟩ := (sections_eq_ok_iff (Nat.le_refl _)).mp hsections
    obtain ⟨offset, rest, rfl, rfl⟩ := (header_eq_ok_iff.mp hheader).cases
    cases hindex : d.invalidIndex? with
    | some cause =>
      rw [hindex] at h₃
      exact absurd h₃ fail_ne_ok
    | none =>
      rw [hindex] at h₃
      obtain ⟨rfl, rfl⟩ := pure_eq_ok_iff.mp h₃
      exact ⟨by simp [Nat.add_assoc], secs, d, congrArg (headerBytes ++ ·) hflat, hreading,
        of_decide_eq_true hlen, hindex, rfl⟩
  · rintro ⟨rfl, secs, d, hrest, hreading, hlen, hindex, rfl⟩
    obtain ⟨offset, _⟩ := c
    obtain rfl := hrest
    have hheader : header ⟨offset, headerBytes ++ secs.flatMap RawSection.bytes⟩ =
        .ok ((), ⟨offset + 8, secs.flatMap RawSection.bytes⟩) := header_eq_ok_iff.mpr ⟨rfl, rfl⟩
    have hsections := (sections_eq_ok_iff (c := ⟨offset + 8, secs.flatMap RawSection.bytes⟩)
      (Nat.le_refl _)).mpr ⟨rfl, secs, rfl, hreading⟩
    have hrequire : require (d.declared.length = d.bodies.length) .bodyCount = pure () :=
      if_pos (decide_eq_true hlen)
    unfold module
    rw [bind_ok hheader, bind_ok (d := fun c => sections 0 {} c.rest.length c) hsections, hrequire,
      pure_bind, hindex]
    refine pure_eq_ok_iff.mpr ⟨rfl, ?_⟩
    rw [List.length_append, ← Nat.add_assoc]
    rfl

end Decoder

theorem Decoder.run?_eq_ok_iff {α : Type} {d : Decoder α} {input : List UInt8} {a : α} :
    d.run? input = .ok a ↔ ∃ c, d ⟨0, input⟩ = .ok (a, c) := by
  unfold Decoder.run?
  cases d ⟨0, input⟩ with
  | error e => simp [Except.map]
  | ok r =>
    constructor
    · rintro ⟨⟩
      exact ⟨r.2, rfl⟩
    · rintro ⟨c, ⟨⟩⟩
      rfl

theorem ofBytes?_eq_ok_iff {input : List UInt8} {m : Module} : Module.ofBytes? input = .ok m ↔
    ∃ secs d, input = headerBytes ++ secs.flatMap RawSection.bytes ∧
      Draft.Reading 0 {} secs d ∧ d.declared.length = d.bodies.length ∧
      d.invalidIndex? = none ∧ m = d.toModule := by
  unfold Module.ofBytes?
  simp only [run?_eq_ok_iff, module_eq_ok_iff, exists_eq_left]

/-! ## What the sections say about the module -/

namespace Draft

variable {d d' : Draft} {last id : UInt8} {secs : List RawSection}

theorem bodies_foldl_addImport (imports : List Import) :
    (imports.foldl Draft.addImport d).bodies = d.bodies := by
  induction imports generalizing d with
  | nil => rfl
  | cons i rest ih =>
    rw [List.foldl_cons, ih]
    cases i <;> rfl

/-- Function bodies come from the code section, memories from the imports and from a section of
their own. -/
theorem yields_kept_readSection : Yields (d.readSection id) fun d' =>
    (id ≠ 10 → d'.bodies = d.bodies) ∧ (id ≠ 2 → id ≠ 5 → d'.memories = d.memories) := by
  unfold readSection
  split
  · exact yields_of_rest fun _ => yields_pure ⟨fun _ => rfl, fun _ _ => rfl⟩
  · exact yields_of_rest fun _ => yields_pure ⟨fun _ => rfl, fun _ _ => rfl⟩
  · exact yields_of_rest fun imports =>
      yields_pure ⟨fun _ => bodies_foldl_addImport imports, fun h _ => absurd rfl h⟩
  · exact yields_of_rest fun _ => yields_pure ⟨fun _ => rfl, fun _ _ => rfl⟩
  · exact yields_of_rest fun _ => yields_pure ⟨fun _ => rfl, fun _ _ => rfl⟩
  · exact yields_of_rest fun _ => yields_of_rest fun _ =>
      yields_pure ⟨fun _ => rfl, fun _ h => absurd rfl h⟩
  · exact yields_of_rest fun _ => yields_pure ⟨fun _ => rfl, fun _ _ => rfl⟩
  · exact yields_of_rest fun _ => yields_pure ⟨fun _ => rfl, fun _ _ => rfl⟩
  · exact yields_of_rest fun _ => yields_pure ⟨fun _ => rfl, fun _ _ => rfl⟩
  · exact yields_of_rest fun _ => yields_pure ⟨fun _ => rfl, fun _ _ => rfl⟩
  · exact yields_of_rest fun _ => yields_pure ⟨fun h => absurd rfl h, fun _ _ => rfl⟩
  · exact yields_of_rest fun _ => yields_pure ⟨fun _ => rfl, fun _ _ => rfl⟩
  · exact yields_pure ⟨fun _ => rfl, fun _ _ => rfl⟩

theorem exhausts_readSection_code {payload : List UInt8} (h : Exhausts (d.readSection 10) payload d') :
    CodeLayout payload d'.bodies := by
  obtain ⟨bodies, middle, hbodies, hpure⟩ := bind_eq_ok_iff.mp (h 0)
  obtain ⟨rfl, hc⟩ := pure_eq_ok_iff.mp hpure
  exact codeLayout_of_functionBodies hbodies (by rw [← hc])

/-- Behind a section come custom sections and those with higher ids. -/
theorem Reading.lt_of_mem (h : Reading last d secs d') : ∀ s ∈ secs, s.id = 0 ∨ last < s.id := by
  induction h with
  | nil => exact fun s hs => absurd hs List.not_mem_nil
  | @cons last d d₁ d' s rest first more ih =>
    refine List.forall_mem_cons.mpr ⟨first.order, fun s' hs' => (ih s' hs').imp_right fun hlt => ?_⟩
    unfold RawSection.next at hlt
    split at hlt
    · exact hlt
    · exact UInt8.lt_trans (first.order.resolve_left ‹_›) hlt

theorem Reading.pairwise (h : Reading last d secs d') :
    ((secs.map RawSection.id).filter (· ≠ 0)).Pairwise (· < ·) := by
  induction h with
  | nil => exact .nil
  | @cons last d d₁ d' s rest first more ih =>
    rw [List.map_cons, List.filter_cons]
    split
    · rename_i hid
      refine .cons (fun id hmem => ?_) ih
      obtain ⟨hmem, hne⟩ := List.mem_filter.mp hmem
      obtain ⟨s', hs', rfl⟩ := List.mem_map.mp hmem
      have hlt := (more.lt_of_mem s' hs').resolve_left (by simpa using hne)
      rwa [RawSection.next, if_neg (by simpa using hid)] at hlt
    · exact ih

theorem Reading.adds_of_mem (h : Reading last d secs d') :
    ∀ s ∈ secs, ∃ last d d', s.Adds last d d' := by
  induction h with
  | nil => exact fun s hs => absurd hs List.not_mem_nil
  | cons first more ih => exact List.forall_mem_cons.mpr ⟨⟨_, _, _, first⟩, ih⟩

/-- What every section keeps is kept by all. -/
theorem Reading.invariant {P : UInt8 → Draft → Prop}
    (hstep : ∀ s last d d', RawSection.Adds s last d d' → P last d → P (s.next last) d')
    (h : Reading last d secs d') (hd : P last d) : ∃ last, P last d' := by
  induction h with
  | nil last d => exact ⟨last, hd⟩
  | cons first more ih => exact ih (hstep _ _ _ _ first hd)

theorem Reading.checked (h : Reading last d secs d') (hd : d.Checked last) :
    ∃ last, d'.Checked last :=
  h.invariant (fun _ _ _ _ hadds hd => hd.readSection hadds.order _ _ _ (hadds.payload 0)) hd

/-- The function bodies are those of the code section. -/
theorem Reading.bodies (h : Reading last d secs d') :
    (∀ s ∈ secs, s.id = 10 → CodeLayout s.payload d'.bodies) ∧
      ((∀ s ∈ secs, s.id ≠ 10) → d'.bodies = d.bodies) := by
  induction h with
  | nil => exact ⟨fun s hs => absurd hs List.not_mem_nil, fun _ => rfl⟩
  | @cons last d d₁ d' s rest first more ih =>
    obtain ⟨hcode, hkept⟩ := ih
    refine ⟨List.forall_mem_cons.mpr ⟨fun hid => ?_, hcode⟩, fun hall => ?_⟩
    · -- the sections behind it have other ids
      rw [hkept fun s' hs' hid' => ?_]
      · have hread := first.payload
        rw [hid] at hread
        exact exhausts_readSection_code hread
      · rcases more.lt_of_mem s' hs' with h0 | hlt
        · exact absurd (hid'.symm.trans h0) (by decide)
        · rw [RawSection.next, hid, hid', if_neg (by decide)] at hlt
          exact absurd hlt (by decide)
    · obtain ⟨hne, hrest⟩ := List.forall_mem_cons.mp hall
      rw [hkept hrest]
      exact (yields_kept_readSection _ _ _ (first.payload 0)).1 hne

/-- The functions with bodies are those that were declared. -/
theorem bodies_toModule (himp : ∀ f ∈ d.imported, f.isImported = true)
    (hlen : d.declared.length = d.bodies.length) : d.toModule.bodies = d.bodies := by
  have hnone : d.imported.toList.filterMap Function.body? = [] := by
    refine List.filterMap_eq_nil_iff.mpr fun f hf => ?_
    cases f with
    | imported t n => rfl
    | defined t locals code =>
      exact absurd (himp _ (Array.mem_toList_iff.mp hf)) (by simp [Function.isImported])
  have hown : ((d.declared.zip d.bodies).map fun b =>
      Function.defined b.1 b.2.locals b.2.code.toArray).filterMap Function.body? = d.bodies := by
    rw [List.filterMap_map]
    exact (congrFun List.filterMap_eq_map _).trans (List.map_snd_zip hlen.ge)
  rw [Module.bodies, toList_functions_toModule, List.filterMap_append, hnone, hown, List.nil_append]

end Draft

namespace Module

/-- One body stands for each function that the module defines itself. -/
theorem length_bodies (m : Module) : m.bodies.length = m.functions.countP fun f => !f.isImported := by
  rw [bodies, ← Array.countP_toList]
  induction m.functions.toList with
  | nil => rfl
  | cons f rest ih =>
    cases f with
    | imported t n => exact ih
    | defined t locals code =>
      rw [List.countP_cons_of_pos rfl, ← ih]
      rfl

/-- **The bytes of a module and its sections.** -/
structure LaidOut (input : List UInt8) (sections : List RawSection) (m : Module) : Prop where
  /-- The header and the sections are all there is. -/
  bytes : input = headerBytes ++ sections.flatMap RawSection.bytes
  sized : ∀ s ∈ sections, IntType.u32.Spells s.size s.payload.length
  known : ∀ s ∈ sections, s.id ≤ 11
  ordered : ((sections.map RawSection.id).filter (· ≠ 0)).Pairwise (· < ·)
  /-- Every section's decoder takes the payload, all of it and nothing else, and this is the module
  that they give. -/
  decoded : ∃ d, Draft.Reading 0 {} sections d ∧ m = d.toModule
  /-- The bodies in the code section are those of the module's own functions. -/
  code : ∀ s ∈ sections, s.id = 10 → CodeLayout s.payload m.bodies
  counted : m.bodies.length = m.functions.countP fun f => !f.isImported
  /-- Without a code section there are none. -/
  uncoded : (∀ s ∈ sections, s.id ≠ 10) → m.bodies = []

end Module

/-- **Accepted bytes are used up in order**: they are the header and then sections of declared size
with ids in order, each section's decoder takes exactly its payload, and each function body's the
bytes of its locals and instructions. -/
theorem laidOut_of_ofBytes? {input : List UInt8} {m : Module} (h : Module.ofBytes? input = .ok m) :
    ∃ sections, m.LaidOut input sections := by
  obtain ⟨secs, d, hbytes, hreading, hlen, -, rfl⟩ := ofBytes?_eq_ok_iff.mp h
  obtain ⟨last, hchecked⟩ := hreading.checked Draft.checked_empty
  obtain ⟨hcode, hnone⟩ := hreading.bodies
  have hbodies : d.toModule.bodies = d.bodies :=
    Draft.bodies_toModule (fun f hf => (hchecked.imported f hf).1) hlen
  refine ⟨secs, hbytes, fun s hs => ?_, fun s hs => ?_, hreading.pairwise, ⟨d, hreading, rfl⟩, ?_,
    d.toModule.length_bodies, ?_⟩
  · obtain ⟨_, _, _, hadds⟩ := hreading.adds_of_mem s hs
    exact hadds.size
  · obtain ⟨_, _, _, hadds⟩ := hreading.adds_of_mem s hs
    exact hadds.known
  · rwa [hbodies]
  · rwa [hbodies]

theorem laidOut_of_ofBytes?_small :
    Module.ofBytes? smallBytes = .ok smallModule ∧ ∃ sections, smallModule.LaidOut smallBytes sections :=
  ⟨ofBytes?_smallBytes, laidOut_of_ofBytes? ofBytes?_smallBytes⟩

/-! ## The memories -/

theorem Decoder.yields_importEntry_memory (known : Nat) :
    Yields (importEntry known) fun i => ∀ s, i = .memory s → s.isImported = true := by
  unfold importEntry
  refine yields_of_rest fun module => yields_of_rest fun field => yields_of_rest fun kind => ?_
  split
  · exact yields_of_rest fun _ => yields_pure nofun
  · exact yields_of_rest fun _ => yields_pure nofun
  · refine yields_of_rest fun l => yields_pure ?_
    rintro _ ⟨⟩
    rfl
  · exact yields_of_rest fun _ => yields_of_rest fun _ => yields_pure nofun
  · exact yields_fail

namespace Draft

variable {d d' : Draft} {last id : UInt8} {secs : List RawSection}

/-- What is known of the memories behind a section with id `last`. The section of memories counts
the imported ones, but the imports alone are not counted. -/
structure MemoriesChecked (last : UInt8) (d : Draft) : Prop where
  early : last < 2 → d.memories = #[]
  few : d.memories.size ≤ 1 ∨ ∀ s ∈ d.memories, s.isImported = true

theorem forall_mem_memories_foldl {imports : List Import}
    (hd : ∀ s ∈ d.memories, s.isImported = true)
    (hi : ∀ i ∈ imports, ∀ s, i = .memory s → s.isImported = true) :
    ∀ s ∈ (imports.foldl Draft.addImport d).memories, s.isImported = true := by
  induction imports generalizing d with
  | nil => exact hd
  | cons i rest ih =>
    obtain ⟨hfirst, hrest⟩ := List.forall_mem_cons.mp hi
    refine ih ?_ hrest
    cases i with
    | memory s => exact Array.forall_mem_push.mpr ⟨hfirst s rfl, hd⟩
    | function _ => exact hd
    | table _ => exact hd
    | global _ => exact hd

theorem MemoriesChecked.readSection (h : d.MemoriesChecked last) (hid : id = 0 ∨ last < id) :
    Yields (d.readSection id) (MemoriesChecked (if id = 0 then last else id)) := by
  by_cases h2 : id = 2
  · subst h2
    have hempty : d.memories = #[] := h.early (hid.resolve_left (by decide))
    refine (yields_importEntry_memory _).vector.bind fun imports hi => yields_pure ⟨?_, Or.inr ?_⟩
    · exact fun hlt => absurd hlt (by rw [if_neg (by decide)]; decide)
    · exact forall_mem_memories_foldl (by simp [hempty]) hi
  by_cases h5 : id = 5
  · subst h5
    refine yields_of_rest fun memories => yields_require.bind fun _ hone => yields_pure ⟨?_, ?_⟩
    · exact fun hlt => absurd hlt (by rw [if_neg (by decide)]; decide)
    · exact Or.inl (of_decide_eq_true hone)
  · intro c d' c' hread
    have hkept := (yields_kept_readSection c d' c' hread).2 h2 h5
    refine ⟨fun hlt => ?_, by rw [hkept]; exact h.few⟩
    rw [hkept]
    split at hlt
    · exact h.early hlt
    · exact h.early (UInt8.lt_trans (hid.resolve_left ‹_›) hlt)

theorem Reading.memoriesChecked (h : Reading last d secs d') (hd : d.MemoriesChecked last) :
    ∃ last, d'.MemoriesChecked last :=
  h.invariant (fun _ _ _ _ hadds hd => hd.readSection hadds.order _ _ _ (hadds.payload 0)) hd

end Draft

/-- **A module has one memory at most when it imports one at most**, and where it has more it
declares none itself. -/
theorem one_memory_iff_of_ofBytes? {input : List UInt8} {m : Module}
    (h : Module.ofBytes? input = .ok m) :
    (m.memories.size ≤ 1 ↔ m.memories.countP Storage.isImported ≤ 1) ∧
      (1 < m.memories.size → ∀ s ∈ m.memories, s.isImported = true) := by
  obtain ⟨secs, d, -, hreading, -, -, rfl⟩ := ofBytes?_eq_ok_iff.mp h
  obtain ⟨last, hchecked⟩ := hreading.memoriesChecked ⟨fun _ => rfl, Or.inl (by decide)⟩
  have hall : 1 < d.memories.size → ∀ s ∈ d.memories, s.isImported = true :=
    fun hmany => hchecked.few.resolve_left (by omega)
  refine ⟨⟨fun hle => Nat.le_trans Array.countP_le_size hle, fun hle => ?_⟩, hall⟩
  by_contra hmany
  have hcount := Array.countP_eq_size.mpr (hall (Nat.lt_of_not_le hmany))
  exact hmany (hcount ▸ hle)

theorem one_memory_iff_of_ofBytes?_small : Module.ofBytes? smallBytes = .ok smallModule ∧
    (smallModule.memories.size ≤ 1 ↔ smallModule.memories.countP Storage.isImported ≤ 1) :=
  ⟨ofBytes?_smallBytes, (one_memory_iff_of_ofBytes? ofBytes?_smallBytes).1⟩

/-- Bytes that import two memories and have no section of their own. -/
def twoMemoriesBytes : List UInt8 :=
  [0x00, 0x61, 0x73, 0x6D, 0x01, 0x00, 0x00, 0x00,
   0x02, 0x0F, 0x02, 0x01, 0x6D, 0x01, 0x61, 0x02, 0x00, 0x01,
     0x01, 0x6D, 0x01, 0x62, 0x02, 0x00, 0x01]

theorem two_memories_accepted :
    ∃ m, Module.ofBytes? twoMemoriesBytes = .ok m ∧ m.memories.size = 2 := by
  have h : (Module.ofBytes? twoMemoriesBytes).toOption.map (·.memories.size) = some 2 := by
    decide +kernel
  cases hm : Module.ofBytes? twoMemoriesBytes with
  | error e => rw [hm] at h; cases h
  | ok m =>
    rw [hm] at h
    exact ⟨m, rfl, Option.some.inj h⟩

end WasmDebugger
