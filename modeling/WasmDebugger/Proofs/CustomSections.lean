import WasmDebugger.Proofs.Layout
import WasmDebugger.Proofs.Spelling

/-!
# Custom sections

A custom section is a name and then anything at all. What stands in it is kept and never looked at,
so the other sections say what they say whatever it is.

* `RawSection.Custom`: a section with a name and a payload.
* `Draft.behind`: a draft with more custom sections in front. `Draft.reading_behind_iff`: sections
  are read behind them as they are read without them.
* `eq_append_of_flatMap_bytes`: where a section ends is seen from its bytes.
* **`ofBytes?_custom`**: another payload in a custom section makes the same module with another
  payload.
-/

namespace WasmDebugger

open Decoder

/-! ## Names -/

namespace Decoder

variable {text : String} {bytes : List UInt8}

theorem exhausts_custom (h : SpellsText bytes text) (payload : List UInt8) :
    Exhausts custom (bytes ++ payload) ⟨text, payload⟩ := by
  let behindName (text : String) : Decoder CustomSection :=
    remainder >>= fun payload => pure ⟨text, payload⟩
  have hremainder : Exhausts (behindName text) payload ⟨text, payload⟩ :=
    Exhausts.bind (fun _ => rfl) takes_pure
  exact (inverts_name.takes h).exhausts_bind (f := behindName) hremainder

/-- A window gives one value. -/
theorem Exhausts.unique {α : Type} {d : Decoder α} {a a' : α} (h : Exhausts d bytes a)
    (h' : Exhausts d bytes a') : a = a' := by
  have hsame := (h 0).symm.trans (h' 0)
  cases hsame
  rfl

end Decoder

/-! ## Drafts with other custom sections -/

namespace Draft

variable {d d' e : Draft} {last id : UInt8} {bytes : List UInt8} {secs : List RawSection}

/-- The draft with custom sections in front of those that it has. -/
def behind (customs : List CustomSection) (d : Draft) : Draft :=
  { d with customSections := customs ++ d.customSections }

theorem addImport_behind (customs : List CustomSection) (d : Draft) (i : Import) :
    (d.behind customs).addImport i = (d.addImport i).behind customs := by
  cases i <;> rfl

theorem foldl_addImport_behind (customs : List CustomSection) (d : Draft) (imports : List Import) :
    imports.foldl addImport (d.behind customs) = (imports.foldl addImport d).behind customs := by
  induction imports generalizing d with
  | nil => rfl
  | cons i rest ih => rw [List.foldl_cons, addImport_behind, ih, List.foldl_cons]

/-- No section looks at the custom sections before it. -/
theorem readSection_behind (customs : List CustomSection) (d : Draft) (id : UInt8) :
    (d.behind customs).readSection id =
      d.readSection id >>= fun d' => pure (d'.behind customs) := by
  unfold readSection
  split <;> simp only [bind_assoc, pure_bind]
  · simp only [behind, List.append_assoc]
  · rfl
  · simp only [foldl_addImport_behind]
    rfl
  all_goals rfl

theorem exhausts_behind_iff {customs : List CustomSection} :
    Exhausts ((d.behind customs).readSection id) bytes e ↔
      ∃ d', Exhausts (d.readSection id) bytes d' ∧ d'.behind customs = e := by
  rw [readSection_behind]
  constructor
  · intro h
    obtain ⟨d', middle, hd', hpure⟩ := bind_eq_ok_iff.mp (h 0)
    obtain ⟨rfl, rfl⟩ := pure_eq_ok_iff.mp hpure
    exact ⟨d', windowed_readSection d id _ _ _ hd', rfl⟩
  · rintro ⟨d', h, rfl⟩
    exact h.bind takes_pure

/-- What it takes for a section to be read. -/
theorem adds_iff {s : RawSection} : s.Adds last d d' ↔
    (IntType.u32.Spells s.size s.payload.length ∧ s.id ≤ maxSectionId ∧ (s.id = 0 ∨ last < s.id)) ∧
      Exhausts (d.readSection s.id) s.payload d' := by
  constructor
  · exact fun h => ⟨⟨h.size, h.known, h.order⟩, h.payload⟩
  · rintro ⟨⟨hsize, hknown, horder⟩, hpayload⟩
    exact ⟨hsize, hknown, horder, hpayload,
      takes_oneSection hsize (decide_eq_true hknown) (by simpa using horder) hpayload⟩

theorem adds_behind_iff {s : RawSection} {customs : List CustomSection} :
    s.Adds last (d.behind customs) e ↔ ∃ d', s.Adds last d d' ∧ d'.behind customs = e := by
  simp only [adds_iff, exhausts_behind_iff]
  constructor
  · rintro ⟨hs, d', hd', he⟩
    exact ⟨d', ⟨hs, hd'⟩, he⟩
  · rintro ⟨d', ⟨hs, hd'⟩, he⟩
    exact ⟨hs, d', hd', he⟩

/-- **Sections are read behind other custom sections as they are read without them.** -/
theorem reading_behind_iff {customs : List CustomSection} :
    Reading last (d.behind customs) secs e ↔
      ∃ d', Reading last d secs d' ∧ d'.behind customs = e := by
  induction secs generalizing last d with
  | nil =>
    constructor
    · rintro ⟨⟩
      exact ⟨d, .nil last d, rfl⟩
    · rintro ⟨d', ⟨⟩, rfl⟩
      exact .nil last _
  | cons s rest ih =>
    constructor
    · rintro (_ | ⟨first, more⟩)
      obtain ⟨d₁, hfirst, rfl⟩ := adds_behind_iff.mp first
      obtain ⟨d', hmore, rfl⟩ := ih.mp more
      exact ⟨d', .cons hfirst hmore, rfl⟩
    · rintro ⟨d', _ | ⟨first, more⟩, rfl⟩
      exact .cons (adds_behind_iff.mpr ⟨_, first, rfl⟩) (ih.mpr ⟨d', more, rfl⟩)

/-- The highest id behind sections. -/
def lastBehind (last : UInt8) (secs : List RawSection) : UInt8 :=
  secs.foldl (fun last s => s.next last) last

theorem reading_append_iff {front back : List RawSection} : Reading last d (front ++ back) e ↔
    ∃ d', Reading last d front d' ∧ Reading (lastBehind last front) d' back e := by
  induction front generalizing last d with
  | nil =>
    constructor
    · exact fun h => ⟨d, .nil last d, h⟩
    · rintro ⟨_, ⟨⟩, h⟩
      exact h
  | cons s rest ih =>
    constructor
    · rintro (_ | ⟨first, more⟩)
      obtain ⟨d', hrest, hback⟩ := ih.mp more
      exact ⟨d', .cons first hrest, hback⟩
    · rintro ⟨d', _ | ⟨first, hrest⟩, hback⟩
      exact .cons first (ih.mpr ⟨d', hrest, hback⟩)

theorem Reading.sized {s : RawSection} (h : Reading last d secs e) (hs : s ∈ secs) :
    IntType.u32.Spells s.size s.payload.length := by
  induction h with
  | nil => exact absurd hs List.not_mem_nil
  | cons first _ ih =>
    rcases List.mem_cons.mp hs with rfl | hs
    · exact first.size
    · exact ih hs

end Draft

/-! ## Where sections end -/

namespace RawSection

variable {s s' : RawSection} {rest rest' : List UInt8}

/-- The size of a section is that of its payload. -/
def Sized (s : RawSection) : Prop := IntType.u32.Spells s.size s.payload.length

theorem eq_of_append (hs : s.Sized) (hs' : s'.Sized) (h : s.bytes ++ rest = s'.bytes ++ rest') :
    s = s' ∧ rest = rest' := by
  obtain ⟨id, size, payload⟩ := s
  obtain ⟨id', size', payload'⟩ := s'
  have h : id :: (size ++ (payload ++ rest)) = id' :: (size' ++ (payload' ++ rest')) := by
    simpa [bytes] using h
  obtain ⟨rfl, htail⟩ := List.cons.inj h
  obtain rfl := hs.marked.eq_of_append hs'.marked htail
  have hlength : payload.length = payload'.length :=
    Int.ofNat_inj.mp (hs.value.symm.trans hs'.value)
  obtain ⟨rfl, rfl⟩ := List.append_inj (List.append_cancel_left htail) hlength
  exact ⟨rfl, rfl⟩

/-- **Where a section ends is seen from its bytes.** -/
theorem eq_append_of_flatMap_bytes {front secs : List RawSection} (hfront : ∀ r ∈ front, r.Sized)
    (hsecs : ∀ r ∈ secs, r.Sized) (h : front.flatMap bytes ++ rest = secs.flatMap bytes) :
    ∃ back, secs = front ++ back ∧ rest = back.flatMap bytes := by
  induction front generalizing secs with
  | nil => exact ⟨secs, rfl, h⟩
  | cons r front ih =>
    cases secs with
    | nil => exact absurd h (by simp [bytes])
    | cons r' secs =>
      rw [List.flatMap_cons, List.flatMap_cons, List.append_assoc] at h
      obtain ⟨rfl, hrest⟩ := eq_of_append (hfront r List.mem_cons_self)
        (hsecs r' List.mem_cons_self) h
      obtain ⟨back, rfl, rfl⟩ := ih (fun x hx => hfront x (List.mem_cons_of_mem r hx))
        (fun x hx => hsecs x (List.mem_cons_of_mem r hx)) hrest
      exact ⟨back, rfl, rfl⟩

/-- A custom section with a name and a payload. -/
structure Custom (s : RawSection) (name : String) (payload : List UInt8) : Prop where
  id : s.id = 0
  size : s.Sized
  content : ∃ text, s.payload = text ++ payload ∧ SpellsText text name

/-- It is added, and that is all. -/
theorem Custom.adds_iff {name : String} {payload : List UInt8} {last : UInt8} {d d' : Draft}
    (h : s.Custom name payload) : s.Adds last d d' ↔
      { d with customSections := d.customSections ++ [⟨name, payload⟩] } = d' := by
  obtain ⟨text, hpayload, htext⟩ := h.content
  have hread : Exhausts (d.readSection s.id) s.payload
      { d with customSections := d.customSections ++ [⟨name, payload⟩] } := by
    rw [h.id, hpayload]
    exact (exhausts_custom htext payload).bind takes_pure
  rw [Draft.adds_iff, h.id]
  constructor
  · rintro ⟨-, hd'⟩
    rw [h.id] at hread
    exact hread.unique hd'
  · rintro rfl
    rw [h.id] at hread
    exact ⟨⟨h.size, by decide, .inl rfl⟩, hread⟩

end RawSection

/-! ## Loading -/

theorem Draft.toModule_behind (customs : List CustomSection) (d : Draft) :
    (d.behind customs).toModule =
      { d.toModule with customSections := customs ++ d.customSections } := rfl

/-- **Loading does not look into custom sections.** Bytes that are accepted with one payload in a
custom section are accepted with any other, and make the same module but for that payload. -/
theorem ofBytes?_custom {front : List RawSection} {s s' : RawSection} {name : String}
    {payload payload' rest : List UInt8} {m : Module} (hfront : ∀ r ∈ front, r.Sized)
    (hs : s.Custom name payload) (hs' : s'.Custom name payload')
    (h : Module.ofBytes? (headerBytes ++ (front.flatMap RawSection.bytes ++ (s.bytes ++ rest))) =
      .ok m) :
    ∃ before after, m.customSections = before ++ ⟨name, payload⟩ :: after ∧
      Module.ofBytes? (headerBytes ++ (front.flatMap RawSection.bytes ++ (s'.bytes ++ rest))) =
        .ok { m with customSections := before ++ ⟨name, payload'⟩ :: after } := by
  obtain ⟨secs, d, hbytes, hreading, hbodies, hindex, rfl⟩ := ofBytes?_eq_ok_iff.mp h
  -- the sections in front, the custom one and those behind it are the ones that were read
  have hall : ∀ r ∈ front ++ [s], r.Sized := by
    intro r hr
    rcases List.mem_append.mp hr with hr | hr
    · exact hfront r hr
    · exact List.mem_singleton.mp hr ▸ hs.size
  have hsplit : (front ++ [s]).flatMap RawSection.bytes ++ rest =
      secs.flatMap RawSection.bytes := by
    rw [← List.append_cancel_left hbytes]
    simp
  obtain ⟨back, rfl, rfl⟩ :=
    RawSection.eq_append_of_flatMap_bytes hall (fun r hr => hreading.sized hr) hsplit
  rw [List.append_assoc, Draft.reading_append_iff] at hreading
  obtain ⟨d₁, hread, _ | ⟨first, more⟩⟩ := hreading
  cases hs.adds_iff.mp first
  -- what is read behind it is read behind any other custom sections
  let kept : Draft := { d₁ with customSections := [] }
  let customs (payload : List UInt8) : List CustomSection :=
    d₁.customSections ++ [⟨name, payload⟩]
  have hkept (payload : List UInt8) :
      { d₁ with customSections := customs payload } = kept.behind (customs payload) := by
    unfold Draft.behind
    rw [List.append_nil]
  rw [hkept payload] at more
  obtain ⟨d', hmore, rfl⟩ := Draft.reading_behind_iff.mp more
  have hnext : s'.next = s.next := by
    unfold RawSection.next
    rw [hs.id, hs'.id]
  have hreading' : Draft.Reading 0 {} (front ++ s' :: back) (d'.behind (customs payload')) := by
    refine Draft.reading_append_iff.mpr ⟨d₁, hread, .cons (hs'.adds_iff.mpr rfl) ?_⟩
    rw [hkept payload', hnext]
    exact Draft.reading_behind_iff.mpr ⟨d', hmore, rfl⟩
  have hmodule (payload : List UInt8) : (d'.behind (customs payload)).toModule =
      { d'.toModule with
        customSections := d₁.customSections ++ ⟨name, payload⟩ :: d'.customSections } := by
    rw [Draft.toModule_behind, ← List.append_cons]
  refine ⟨d₁.customSections, d'.customSections, by rw [hmodule], ofBytes?_eq_ok_iff.mpr
    ⟨front ++ s' :: back, _, by simp, hreading', hbodies, hindex, ?_⟩⟩
  rw [hmodule, hmodule]

end WasmDebugger
