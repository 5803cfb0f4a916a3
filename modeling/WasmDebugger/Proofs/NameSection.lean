import WasmDebugger.DebugNames
import WasmDebugger.Proofs.Coherence
import WasmDebugger.Proofs.CustomSections

/-!
# Names are read all or none

The section for names is a table of subsections, each a row of records behind its size. One byte
too few or too many, at any depth, and no name is taken from it.

* `DebugNames.SpellsTable`: which bytes are such a table, and of what parts.
* `DebugNames.record`: what a part adds to the names.
* **`DebugNames.ofPayload?_eq_ok_iff`**: bytes give names exactly if they are a table, and then the
  names are all that is recorded in it.
* **`DebugNames.names_all_or_none`**: a lookup gives the last name recorded for a key, or nothing;
  and a module loads whatever the section has in it.
-/

namespace WasmDebugger

open Decoder

/-! ## The table of names -/

namespace DebugNames

/-- A name behind the index of what it is for. -/
def SpellsEntry (bytes : List UInt8) (e : UInt32 × String) : Prop :=
  ∃ index text, bytes = index ++ text ∧ IntType.u32.Spells index e.1.toNat ∧ SpellsText text e.2

/-- The names of the locals of a function behind its index. -/
def SpellsLocals (bytes : List UInt8) (g : UInt32 × List (UInt32 × String)) : Prop :=
  ∃ index entries, bytes = index ++ entries ∧ IntType.u32.Spells index g.1.toNat ∧
    SpellsVector SpellsEntry entries g.2

/-- What a subsection holds. -/
inductive Part where
  | module (name : String)
  | functions (entries : List (UInt32 × String))
  | locals (groups : List (UInt32 × List (UInt32 × String)))
  /-- Anything, in a subsection with another id. -/
  | other

/-- What the content of a subsection with an id says, in all of its bytes. -/
def SpellsPart (id : UInt8) (content : List UInt8) : Part → Prop
  | .module name => id = 0 ∧ SpellsText content name
  | .functions entries => id = 1 ∧ SpellsVector SpellsEntry content entries
  | .locals groups => id = 2 ∧ SpellsVector SpellsLocals content groups
  | .other => id ≠ 0 ∧ id ≠ 1 ∧ id ≠ 2

theorem Part.exists_iff {P : Part → Prop} : (∃ part, P part) ↔
    (∃ name, P (.module name)) ∨ (∃ entries, P (.functions entries)) ∨
      (∃ groups, P (.locals groups)) ∨ P .other := by
  constructor
  · rintro ⟨name | entries | groups | -, h⟩
    · exact .inl ⟨name, h⟩
    · exact .inr (.inl ⟨entries, h⟩)
    · exact .inr (.inr (.inl ⟨groups, h⟩))
    · exact .inr (.inr (.inr h))
  · rintro (⟨name, h⟩ | ⟨entries, h⟩ | ⟨groups, h⟩ | h)
    · exact ⟨_, h⟩
    · exact ⟨_, h⟩
    · exact ⟨_, h⟩
    · exact ⟨_, h⟩

/-- A subsection: its id, the spelling of its size, and content of that size. -/
def SpellsSubsection (bytes : List UInt8) (part : Part) : Prop :=
  ∃ id size content, bytes = id :: (size ++ content) ∧
    IntType.u32.Spells size content.length ∧ SpellsPart id content part

/-- **A table of names** is subsections and nothing else. -/
def SpellsTable (payload : List UInt8) (parts : List Part) : Prop :=
  ∃ pieces, payload = pieces.flatten ∧ List.Forall₂ SpellsSubsection pieces parts

/-- The names of functions that a part records, in order. -/
def Part.functionRecords : Part → List (UInt32 × String)
  | .functions entries => entries
  | _ => []

/-- The names of the locals of one function, under their keys. -/
def groupRecords (g : UInt32 × List (UInt32 × String)) : List ((UInt32 × UInt32) × String) :=
  g.2.map fun (l, name) => ((g.1, l), name)

/-- The names of locals that a part records, in order. -/
def Part.localRecords : Part → List ((UInt32 × UInt32) × String)
  | .locals groups => groups.flatMap groupRecords
  | _ => []

/-- What a part adds to the names. -/
def record (n : DebugNames) : Part → DebugNames
  | .module name => { n with module := some name }
  | part =>
    { n with
      functions := part.functionRecords.reverse ++ n.functions
      locals := part.localRecords.reverse ++ n.locals }

variable {n n' : DebugNames} {c c' : Cursor} {id : UInt8} {payload bytes : List UInt8}
  {parts : List Part}

theorem inverts_entry : Inverts entry SpellsEntry := by
  refine (inverts_u32.pair inverts_name Prod.mk).congr fun bytes e => ⟨?_, ?_⟩
  · rintro ⟨_, _, index, text, rfl, hindex, htext, rfl⟩
    exact ⟨index, text, rfl, hindex, htext⟩
  · rintro ⟨index, text, rfl, hindex, htext⟩
    exact ⟨_, _, index, text, rfl, hindex, htext, rfl⟩

theorem SpellsEntry.ne_nil {e : UInt32 × String} (h : SpellsEntry bytes e) : bytes ≠ [] := by
  obtain ⟨index, text, rfl, hindex, -⟩ := h
  exact List.append_ne_nil_of_left_ne_nil hindex.marked.ne_nil text

theorem SpellsLocals.ne_nil {g : UInt32 × List (UInt32 × String)} (h : SpellsLocals bytes g) :
    bytes ≠ [] := by
  obtain ⟨index, entries, rfl, hindex, -⟩ := h
  exact List.append_ne_nil_of_left_ne_nil hindex.marked.ne_nil entries

theorem inverts_entries : Inverts (vector entry) (SpellsVector SpellsEntry) :=
  inverts_entry.vector fun _ _ => SpellsEntry.ne_nil

theorem inverts_localEntries : Inverts localEntries fun bytes records =>
    ∃ g, SpellsLocals bytes g ∧ groupRecords g = records := by
  refine (inverts_u32.pair inverts_entries fun f entries => groupRecords (f, entries)).congr
    fun bytes records => ⟨?_, ?_⟩
  · rintro ⟨f, entries, index, back, rfl, hindex, hback, rfl⟩
    exact ⟨(f, entries), ⟨index, back, rfl, hindex, hback⟩, rfl⟩
  · rintro ⟨⟨f, entries⟩, ⟨index, back, rfl, hindex, hback⟩, rfl⟩
    exact ⟨f, entries, index, back, rfl, hindex, hback, rfl⟩

/-- Items that are made of spelled ones. -/
theorem forall₂_exists_iff {α β : Type} {R : List UInt8 → α → Prop} {f : α → β}
    {pieces : List (List UInt8)} {l : List β} :
    List.Forall₂ (fun piece b => ∃ a, R piece a ∧ f a = b) pieces l ↔
      ∃ items, List.Forall₂ R pieces items ∧ items.map f = l := by
  constructor
  · intro h
    induction h with
    | nil => exact ⟨[], .nil, rfl⟩
    | cons hfirst _ ih =>
      obtain ⟨a, ha, rfl⟩ := hfirst
      obtain ⟨items, hitems, rfl⟩ := ih
      exact ⟨a :: items, .cons ha hitems, rfl⟩
  · rintro ⟨items, hitems, rfl⟩
    exact List.forall₂_map_right_iff.mpr (hitems.imp fun _ a ha => ⟨a, ha, rfl⟩)

theorem inverts_localGroups : Inverts (vector localEntries) fun bytes rows =>
    ∃ groups, SpellsVector SpellsLocals bytes groups ∧ groups.map groupRecords = rows := by
  refine (inverts_localEntries.vector ?_).congr fun bytes rows => ?_
  · rintro bytes _ ⟨g, hg, -⟩
    exact hg.ne_nil
  · simp only [SpellsVector, forall₂_exists_iff]
    constructor
    · rintro ⟨count, pieces, rfl, hcount, groups, hgroups, rfl⟩
      rw [List.length_map] at hcount
      exact ⟨groups, ⟨count, pieces, rfl, hcount, hgroups⟩, rfl⟩
    · rintro ⟨groups, ⟨count, pieces, rfl, hcount, hgroups⟩, rfl⟩
      rw [← List.length_map groupRecords] at hcount
      exact ⟨count, pieces, rfl, hcount, groups, hgroups, rfl⟩

/-- **A subsection's content is read in all of its bytes or not at all.** -/
theorem readSubsection_eq_ok_iff {offset offset' : Nat} :
    n.readSubsection id ⟨offset, bytes⟩ = .ok (n', ⟨offset', []⟩) ↔
      offset' = offset + bytes.length ∧ ∃ part, SpellsPart id bytes part ∧ n.record part = n' := by
  rw [Part.exists_iff]
  unfold readSubsection
  split
  · refine (inverts_name.map _).window_iff.trans (and_congr_right fun _ => ?_)
    simp [SpellsPart, record]
  · refine (inverts_entries.map _).window_iff.trans (and_congr_right fun _ => ?_)
    simp [SpellsPart, record, Part.functionRecords, Part.localRecords]
  · refine (inverts_localGroups.map _).window_iff.trans (and_congr_right fun _ => ?_)
    simp [SpellsPart, record, Part.functionRecords, Part.localRecords, List.flatMap_def]
  · rename_i h0 h1 h2
    simp only [bind_eq_ok_iff, pure_eq_ok_iff]
    constructor
    · rintro ⟨_, _, hremainder, rfl, hend⟩
      cases hremainder
      exact ⟨congrArg Cursor.offset hend, .inr (.inr (.inr ⟨⟨h0, h1, h2⟩, rfl⟩))⟩
    · rintro ⟨rfl, ⟨_, h, -⟩ | ⟨_, h, -⟩ | ⟨_, h, -⟩ | ⟨-, rfl⟩⟩
      · exact absurd h.1 h0
      · exact absurd h.1 h1
      · exact absurd h.1 h2
      · exact ⟨bytes, _, rfl, rfl, rfl⟩

theorem subsection_eq_ok_iff : subsection n c = .ok (n', c') ↔
    ∃ bytes part, c.Passed bytes c' ∧ SpellsSubsection bytes part ∧ n.record part = n' := by
  unfold subsection
  simp only [bind_eq_ok_iff, byte_eq_ok_iff, u32_eq_ok_iff, within_eq_ok_iff,
    readSubsection_eq_ok_iff]
  constructor
  · rintro ⟨id, _, hid, size, middle, ⟨sizeBytes, hsize, hspells⟩, window, _, hwindow, hlength, -,
      part, hpart, rfl⟩
    rw [← hlength] at hspells
    exact ⟨id :: (sizeBytes ++ window), part, hid.trans (hsize.trans hwindow),
      ⟨id, sizeBytes, window, rfl, hspells, hpart⟩, rfl⟩
  · rintro ⟨_, part, hpass, ⟨id, size, content, rfl, hspells, hpart⟩, rfl⟩
    obtain ⟨offset, rest, rfl, rfl⟩ := hpass.cases
    have hlength : content.length.toUInt32.toNat = content.length :=
      toNat_toUInt32 (Int.ofNat_lt.mp hspells.bound)
    refine ⟨id, ⟨offset + 1, size ++ (content ++ rest)⟩, ⟨by simp, rfl⟩, content.length.toUInt32,
      ⟨offset + 1 + size.length, content ++ rest⟩, ⟨size, ⟨rfl, rfl⟩, by rwa [hlength]⟩, content, _,
      ⟨rfl, ?_⟩, hlength.symm, rfl, part, hpart, rfl⟩
    simp only [List.length_cons, List.length_append]
    omega

theorem SpellsSubsection.ne_nil {part : Part} (h : SpellsSubsection bytes part) : bytes ≠ [] := by
  obtain ⟨id, size, content, rfl, -⟩ := h
  exact List.cons_ne_nil _ _

theorem spellsTable_nil_iff : SpellsTable [] parts ↔ parts = [] := by
  constructor
  · rintro ⟨pieces, hflat, hpieces⟩
    cases hpieces with
    | nil => rfl
    | cons first _ => exact absurd (List.append_eq_nil_iff.mp hflat.symm).1 first.ne_nil
  · rintro rfl
    exact ⟨[], rfl, .nil⟩

theorem spellsTable_cons_iff {part : Part} : SpellsTable payload (part :: parts) ↔
    ∃ front back, payload = front ++ back ∧ SpellsSubsection front part ∧
      SpellsTable back parts := by
  constructor
  · rintro ⟨_, rfl, _ | ⟨first, more⟩⟩
    exact ⟨_, _, rfl, first, _, rfl, more⟩
  · rintro ⟨front, _, rfl, first, pieces, rfl, more⟩
    exact ⟨front :: pieces, rfl, .cons first more⟩

/-- Subsections to the end of the window, with room for all of them. -/
theorem subsections_eq_ok_iff {k : Nat} (hk : c.rest.length ≤ k) :
    subsections n k c = .ok (n', c') ↔ c' = ⟨c.offset + c.rest.length, []⟩ ∧
      ∃ parts, SpellsTable c.rest parts ∧ parts.foldl record n = n' := by
  obtain ⟨offset, bytes⟩ := c
  have hend {offset : Nat} {n : DebugNames} :
      (pure n : Decoder DebugNames) ⟨offset, []⟩ = .ok (n', c') ↔
        c' = ⟨offset, []⟩ ∧ ∃ parts, SpellsTable [] parts ∧ parts.foldl record n = n' := by
    rw [pure_eq_ok_iff, and_comm]
    simp only [spellsTable_nil_iff, exists_eq_left, List.foldl_nil, eq_comm]
  -- a subsection takes a byte or more, so the bytes end before the room does
  induction k generalizing offset bytes n with
  | zero =>
    obtain rfl : bytes = [] := List.eq_nil_of_length_eq_zero (Nat.le_zero.mp hk)
    exact hend
  | succ k ih =>
    rw [subsections, bind_ok (d := atEnd) rfl]
    by_cases hempty : bytes = []
    · subst hempty
      exact hend
    rw [if_neg (by simpa using hempty), bind_eq_ok_iff]
    simp only [subsection_eq_ok_iff]
    constructor
    · rintro ⟨_, middle, ⟨front, part, hpass, hpart, rfl⟩, hmore⟩
      obtain ⟨_, rest, hc, rfl⟩ := hpass.cases
      obtain ⟨rfl, rfl⟩ := Cursor.mk.inj hc
      have hpos := List.length_pos_iff.mpr hpart.ne_nil
      rw [List.length_append] at hk
      obtain ⟨rfl, parts, htable, rfl⟩ := (ih _ _ (by simp only; omega)).mp hmore
      refine ⟨?_, part :: parts, spellsTable_cons_iff.mpr ⟨front, rest, rfl, hpart, htable⟩, rfl⟩
      rw [List.length_append, Nat.add_assoc]
    · rintro ⟨rfl, _ | ⟨part, parts⟩, htable, rfl⟩
      · obtain ⟨_, hflat, ⟨⟩⟩ := htable
        exact absurd hflat hempty
      · obtain ⟨front, back, rfl, hpart, htable⟩ := spellsTable_cons_iff.mp htable
        have hpos := List.length_pos_iff.mpr hpart.ne_nil
        rw [List.length_append] at hk
        refine ⟨_, ⟨offset + front.length, back⟩, ⟨front, part, ⟨rfl, rfl⟩, hpart, rfl⟩,
          (ih _ _ (by simp only; omega)).mpr ⟨?_, parts, htable, rfl⟩⟩
        rw [List.length_append, Nat.add_assoc]

/-- **Bytes give names exactly if they are a table**, and then the names are all that is recorded
in it. -/
theorem ofPayload?_eq_ok_iff {names : DebugNames} : ofPayload? payload = .ok names ↔
    ∃ parts, SpellsTable payload parts ∧ parts.foldl record {} = names := by
  unfold ofPayload?
  rw [run?_eq_ok_iff]
  have hroom (c' : Cursor) :=
    @subsections_eq_ok_iff {} names ⟨0, payload⟩ c' payload.length (Nat.le_refl _)
  constructor
  · rintro ⟨_, h⟩
    exact ((hroom _).mp h).2
  · exact fun h => ⟨_, (hroom _).mpr ⟨rfl, h⟩⟩

/-! ## Lookups -/

/-- **The name that was recorded last** for a key. -/
def LastRecord {κ : Type} (records : List (κ × String)) (key : κ) (name : String) : Prop :=
  ∃ before after, records = before ++ (key, name) :: after ∧ ∀ r ∈ after, r.1 ≠ key

/-- A lookup that gives the name recorded last, and nothing for a key without a record. -/
def GivesLast {κ : Type} (lookup : κ → Option String) (records : List (κ × String)) : Prop :=
  ∀ key, (∀ name, lookup key = some name ↔ LastRecord records key name) ∧
    (lookup key = none ↔ ∀ r ∈ records, r.1 ≠ key)

theorem givesLast_lookup_reverse {κ : Type} [BEq κ] [LawfulBEq κ] (records : List (κ × String)) :
    GivesLast (fun key => records.reverse.lookup key) records := by
  intro key
  constructor
  · intro name
    rw [List.lookup_eq_some_iff]
    -- the first entry of the reverse has in front of it, turned round, what came after the last one
    constructor
    · rintro ⟨after, before, hrecords, hafter⟩
      refine ⟨before.reverse, after.reverse, ?_, fun r hr heq => ?_⟩
      · rw [← List.reverse_reverse records, hrecords]
        simp
      · have := hafter r (List.mem_reverse.mp hr)
        simp [heq] at this
    · rintro ⟨before, after, rfl, hafter⟩
      refine ⟨after.reverse, before.reverse, by simp, fun r hr => ?_⟩
      have := hafter r (List.mem_reverse.mp hr)
      simp [Ne.symm this]
  · rw [List.lookup_eq_none_iff]
    constructor
    · rintro h r hr rfl
      simpa using h r (List.mem_reverse.mpr hr)
    · intro h r hr
      simpa using (h r (List.mem_reverse.mp hr)).symm

def functionRecords (parts : List Part) : List (UInt32 × String) :=
  parts.flatMap Part.functionRecords

def localRecords (parts : List Part) : List ((UInt32 × UInt32) × String) :=
  parts.flatMap Part.localRecords

theorem functions_foldl_record (parts : List Part) (n : DebugNames) :
    (parts.foldl record n).functions = (functionRecords parts).reverse ++ n.functions := by
  induction parts generalizing n with
  | nil => rfl
  | cons part parts ih =>
    have hparts : functionRecords (part :: parts) = part.functionRecords ++ functionRecords parts :=
      List.flatMap_cons
    rw [List.foldl_cons, ih, hparts, List.reverse_append, List.append_assoc]
    cases part <;> rfl

theorem locals_foldl_record (parts : List Part) (n : DebugNames) :
    (parts.foldl record n).locals = (localRecords parts).reverse ++ n.locals := by
  induction parts generalizing n with
  | nil => rfl
  | cons part parts ih =>
    have hparts : localRecords (part :: parts) = part.localRecords ++ localRecords parts :=
      List.flatMap_cons
    rw [List.foldl_cons, ih, hparts, List.reverse_append, List.append_assoc]
    cases part <;> rfl

/-- Names as they stand in records, those recorded last. -/
structure Gives (n : DebugNames) (functions : List (UInt32 × String))
    (locals : List ((UInt32 × UInt32) × String)) : Prop where
  functions : GivesLast n.function? functions
  locals : GivesLast (fun (f, l) => n.local? f l) locals

/-- Names that give nothing for any key. -/
def Silent (n : DebugNames) : Prop := ∀ f, n.function? f = none ∧ ∀ l, n.local? f l = none

theorem silent_empty : Silent {} := fun _ => ⟨rfl, fun _ => rfl⟩

theorem gives_foldl_record (parts : List Part) :
    (parts.foldl record {}).Gives (functionRecords parts) (localRecords parts) := by
  constructor
  · unfold function?
    rw [functions_foldl_record, List.append_nil]
    exact givesLast_lookup_reverse _
  · unfold local?
    rw [locals_foldl_record, List.append_nil]
    exact givesLast_lookup_reverse _

/-! ## The section of a module -/

/-- The module's first section for names has this payload. -/
def HasNames (m : Module) (payload : List UInt8) : Prop :=
  ∃ before after, m.customSections = before ++ ⟨sectionName, payload⟩ :: after ∧
    ∀ c ∈ before, c.name ≠ sectionName

variable {m : Module}

theorem HasNames.custom?_eq (h : HasNames m payload) : m.custom? sectionName = some payload := by
  obtain ⟨before, after, hm, hbefore⟩ := h
  unfold Module.custom?
  rw [hm, List.find?_append, List.find?_eq_none.mpr (by simpa using hbefore)]
  simp

theorem ofModule_of_error (h : HasNames m payload) {e : LoadError}
    (he : ofPayload? payload = .error e) : ofModule m = ({}, some e) := by
  unfold ofModule
  rw [h.custom?_eq]
  simp only [he]

theorem ofModule_of_table (h : HasNames m payload) (ht : SpellsTable payload parts) :
    ofModule m = (parts.foldl record {}, none) := by
  unfold ofModule
  rw [h.custom?_eq]
  simp only [ofPayload?_eq_ok_iff.mpr ⟨parts, ht, rfl⟩]

/-- What a lookup in the names of a module gives. -/
theorem ofModule_of_hasNames (h : HasNames m payload) :
    (∀ parts, SpellsTable payload parts →
      (ofModule m).1.Gives (functionRecords parts) (localRecords parts)) ∧
    ((¬ ∃ parts, SpellsTable payload parts) → (ofModule m).1.Silent) := by
  constructor
  · intro parts ht
    rw [ofModule_of_table h ht]
    exact gives_foldl_record parts
  · intro hnone
    cases he : ofPayload? payload with
    | ok names =>
      obtain ⟨parts, ht, -⟩ := ofPayload?_eq_ok_iff.mp he
      exact absurd ⟨parts, ht⟩ hnone
    | error e =>
      rw [ofModule_of_error h he]
      exact silent_empty

theorem ofModule_of_none (h : ∀ c ∈ m.customSections, c.name ≠ sectionName) :
    ofModule m = ({}, none) := by
  unfold ofModule Module.custom?
  rw [List.find?_eq_none.mpr (by simpa using h)]
  rfl

/-- **Names are read all or none.** If the first section for them is a table, a lookup gives the
last name that the table records for the key, or nothing when it records none; if it is not, and
when there is no such section, every lookup gives nothing. A module that loads with one payload in
such a section loads with any other, and differs in that payload only. -/
theorem names_all_or_none :
    (∀ m payload, HasNames m payload →
      (∀ parts, SpellsTable payload parts →
        (ofModule m).1.Gives (functionRecords parts) (localRecords parts)) ∧
      ((¬ ∃ parts, SpellsTable payload parts) → (ofModule m).1.Silent)) ∧
    (∀ m : Module, (∀ c ∈ m.customSections, c.name ≠ sectionName) → (ofModule m).1.Silent) ∧
    ∀ (front : List RawSection) (s s' : RawSection) (payload payload' rest : List UInt8)
      (m : Module), (∀ r ∈ front, r.Sized) → s.Custom sectionName payload →
      s'.Custom sectionName payload' →
      Module.ofBytes? (headerBytes ++ (front.flatMap RawSection.bytes ++ (s.bytes ++ rest))) =
        .ok m →
      ∃ before after, m.customSections = before ++ ⟨sectionName, payload⟩ :: after ∧
        Module.ofBytes? (headerBytes ++ (front.flatMap RawSection.bytes ++ (s'.bytes ++ rest))) =
          .ok { m with customSections := before ++ ⟨sectionName, payload'⟩ :: after } := by
  refine ⟨fun m payload h => ofModule_of_hasNames h, ?_, ?_⟩
  · intro m h
    rw [ofModule_of_none h]
    exact silent_empty
  · intro front s s' payload payload' rest m hfront hs hs' h
    exact ofBytes?_custom hfront hs hs' h

/-- Two names for function 0, one for its local 0, and a subsection of another kind. -/
def twiceNamed : List UInt8 :=
  [0x01, 0x07, 0x02, 0x00, 0x01, 0x66, 0x00, 0x01, 0x67,
   0x02, 0x06, 0x01, 0x00, 0x01, 0x00, 0x01, 0x78,
   0x09, 0x01, 0xFF]

/-- What `twiceNamed` spells. -/
def twiceNamedParts : List Part :=
  [.functions [(0, "f"), (0, "g")], .locals [(0, [(0, "x")])], .other]

theorem spellsTable_twiceNamed : SpellsTable twiceNamed twiceNamedParts := by
  have htext (b : UInt8) : SpellsText [0x01, b] (Octets.ofBytes [b]) :=
    ⟨[0x01], [b], rfl, spells_one (b := 0x01) (by decide), rfl⟩
  have hentry (b : UInt8) : SpellsEntry [0x00, 0x01, b] (0, Octets.ofBytes [b]) :=
    ⟨[0x00], [0x01, b], rfl, spells_one (b := 0x00) (by decide), htext b⟩
  have hlocals : SpellsLocals [0x00, 0x01, 0x00, 0x01, 0x78] (0, [(0, "x")]) :=
    ⟨[0x00], _, rfl, spells_one (b := 0x00) (by decide), [0x01], [_], rfl,
      spells_one (b := 0x01) (by decide), .cons (hentry 0x78) .nil⟩
  refine ⟨[[0x01, 0x07, 0x02, 0x00, 0x01, 0x66, 0x00, 0x01, 0x67],
    [0x02, 0x06, 0x01, 0x00, 0x01, 0x00, 0x01, 0x78], [0x09, 0x01, 0xFF]], rfl,
    .cons ⟨0x01, [0x07], _, rfl, spells_one (b := 0x07) (by decide), rfl, [0x02],
      [[0x00, 0x01, 0x66], [0x00, 0x01, 0x67]], rfl, spells_one (b := 0x02) (by decide),
      .cons (hentry 0x66) (.cons (hentry 0x67) .nil)⟩ <|
    .cons ⟨0x02, [0x06], _, rfl, spells_one (b := 0x06) (by decide), rfl, [0x01], [_], rfl,
      spells_one (b := 0x01) (by decide), .cons hlocals .nil⟩ <|
    .cons ⟨0x09, [0x01], [0xFF], rfl, spells_one (b := 0x01) (by decide),
      ⟨by decide, by decide, by decide⟩⟩ .nil⟩

/-- A module with a section for names. -/
def nopNamed (payload : List UInt8) : Module :=
  { Session.nopModule with customSections := [⟨sectionName, payload⟩] }

/-- The sections of `nopBytes` in front of the one for names. -/
def nopFront : List RawSection :=
  [⟨0x01, [0x04], [0x01, 0x60, 0x00, 0x00]⟩, ⟨0x03, [0x02], [0x01, 0x00]⟩,
   ⟨0x0A, [0x06], [0x01, 0x04, 0x00, 0x01, 0x01, 0x0B]⟩]

/-- A section for names, in as many bytes as one byte can say. -/
def nameSection (payload : List UInt8) : RawSection :=
  ⟨0x00, [(payload.length + 5).toUInt8], [0x04, 0x6E, 0x61, 0x6D, 0x65] ++ payload⟩

theorem custom_nameSection {payload : List UInt8} (h : payload.length < 120) :
    (nameSection payload).Custom sectionName payload where
  id := rfl
  size := by
    have hsize : (payload.length + 5).toUInt8.toNat = payload.length + 5 :=
      toNat_toUInt8 (by omega)
    have hspells := spells_one (b := (payload.length + 5).toUInt8) (by omega)
    rw [hsize] at hspells
    exact hspells
  content := ⟨_, rfl, [0x04], [0x6E, 0x61, 0x6D, 0x65], rfl, spells_one (b := 0x04) (by decide),
    by decide⟩

theorem sized_nopFront : ∀ r ∈ nopFront, r.Sized := by
  have h4 := spells_one (b := 0x04) (by decide)
  have h2 := spells_one (b := 0x02) (by decide)
  have h6 := spells_one (b := 0x06) (by decide)
  simpa [nopFront, RawSection.Sized] using ⟨h4, h2, h6⟩

/-- The last of two names for function 0, no names where the payload breaks off or there is none,
and a module that loads all the same. -/
theorem names_all_or_none_nop :
    (ofModule (nopNamed twiceNamed)).1.function? 0 = some "g" ∧
      (ofModule (nopNamed [0x01])).1.Silent ∧
      (ofModule { Session.nopModule with customSections := [] }).1.Silent ∧
      ∃ m, Module.ofBytes? (headerBytes ++ (nopFront.flatMap RawSection.bytes ++
        ((nameSection [0x01]).bytes ++ []))) = .ok m := by
  have hnames (payload : List UInt8) : HasNames (nopNamed payload) payload :=
    ⟨[], [], rfl, by simp⟩
  have hbroken : ¬ ∃ parts, SpellsTable [0x01] parts := by
    rintro ⟨parts, ht⟩
    have hok : (ofPayload? [0x01]).isOk = true :=
      congrArg Except.isOk (ofPayload?_eq_ok_iff.mpr ⟨parts, ht, rfl⟩)
    exact absurd hok (by decide)
  have hload : Module.ofBytes? (headerBytes ++ (nopFront.flatMap RawSection.bytes ++
      ((nameSection [0x01, 0x04, 0x01, 0x00, 0x01, 0x66]).bytes ++ []))) = .ok Session.nopModule :=
    Session.ofBytes?_nopBytes
  obtain ⟨hread, hnone, hloads⟩ := names_all_or_none
  refine ⟨?_, (hread _ _ (hnames [0x01])).2 hbroken, hnone _ (by simp), ?_⟩
  · have hgives := (hread _ _ (hnames twiceNamed)).1 _ spellsTable_twiceNamed
    exact ((hgives.functions 0).1 "g").mpr ⟨[(0, "f")], [], rfl, by simp⟩
  · obtain ⟨_, _, -, hok⟩ := hloads _ _ (nameSection [0x01]) _ [0x01] _ _ sized_nopFront
      (custom_nameSection (by decide)) (custom_nameSection (by decide)) hload
    exact ⟨_, hok⟩

end DebugNames

end WasmDebugger
