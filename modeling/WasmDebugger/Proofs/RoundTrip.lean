import WasmDebugger.Proofs.ReadBack

/-!
# Reading undoes writing

A module that passes the loader's own checks is given back by `Module.ofBytes?` from its encoding.

* `Module.Encodable`: the checks, and that names are octets and sizes are 32-bit numbers.
* `Decoder.Loads first`: what a run over sections does, the ids of which are `first` or more.
  Sections may be left out, so a lemma for one of them passes on to the next in both cases.
* **`ofBytes?_encode`**: the round trip.
-/

namespace WasmDebugger

open Decoder (Import Fills Reads sizeLimit)

/-- A module that has an encoding which the loader accepts. -/
structure Module.Encodable (m : Module) : Prop extends m.WellFormed where
  tablesFirst : ImportsFirst Storage.isImported m.tables.toList
  globalsFirst : ImportsFirst Global.isImported m.globals.toList
  oneMemory : m.memories.size ≤ 1
  importNames : ∀ i ∈ m.imports, ∀ n ∈ i.name?, Octets.IsText n.module ∧ Octets.IsText n.field
  exportNames : ∀ e ∈ m.exports, Octets.IsText e.name
  customNames : ∀ c ∈ m.customSections, Octets.IsText c.name
  sizes : ∀ s ∈ m.sections, s.2.length < sizeLimit

/-! ## Imports first -/

theorem ImportsFirst.filter_append {α : Type} {isImported : α → Bool} {items : List α}
    (h : ImportsFirst isImported items) :
    items.filter isImported ++ items.filter (fun a => !isImported a) = items := by
  obtain ⟨imported, own, rfl, hi, ho⟩ := h
  have hi' : ∀ a ∈ imported, ¬ (!isImported a) = true := fun a ha => by simp [hi a ha]
  have ho' : ∀ a ∈ own, ¬ isImported a = true := fun a ha => by simp [ho a ha]
  have ho'' : ∀ a ∈ own, (!isImported a) = true := fun a ha => by simp [ho a ha]
  rw [List.filter_append, List.filter_append, List.filter_eq_self.mpr hi,
    List.filter_eq_nil_iff.mpr hi', List.filter_eq_nil_iff.mpr ho', List.filter_eq_self.mpr ho'']
  simp

theorem ImportsFirst.toArray_append {α : Type} {isImported : α → Bool} {items : Array α}
    (h : ImportsFirst isImported items.toList) :
    (items.toList.filter isImported).toArray ++
      (items.toList.filter fun a => !isImported a).toArray = items := by
  rw [List.append_toArray, h.filter_append]

theorem importsFirst_of_length_le_one {α : Type} (isImported : α → Bool) {items : List α}
    (h : items.length ≤ 1) : ImportsFirst isImported items := by
  match items, h with
  | [], _ => exact ⟨[], [], rfl, by simp, by simp⟩
  | [a], _ =>
    cases ha : isImported a with
    | true => exact ⟨[a], [], rfl, by simp [ha], by simp⟩
    | false => exact ⟨[], [a], rfl, by simp, by simp [ha]⟩

/-! ## The draft that is read -/

/-- What has been read of a module when the next section has id `next` or more. -/
def Module.draftBefore (m : Module) (next : Nat) : Draft where
  types := if 1 < next then m.types else #[]
  imported := if 2 < next then (m.functions.toList.filter Function.isImported).toArray else #[]
  declared := if 3 < next then m.declared else []
  tables :=
    let imported := (m.tables.toList.filter Storage.isImported).toArray
    if 4 < next then imported ++ ((ownLimits m.tables).map (⟨·, none⟩)).toArray
    else if 2 < next then imported else #[]
  memories :=
    let imported := (m.memories.toList.filter Storage.isImported).toArray
    if 5 < next then imported ++ ((ownLimits m.memories).map (⟨·, none⟩)).toArray
    else if 2 < next then imported else #[]
  globals :=
    let imported := (m.globals.toList.filter Global.isImported).toArray
    if 6 < next then imported ++ m.ownGlobals.toArray else if 2 < next then imported else #[]
  exports := if 7 < next then m.exports else []
  start := if 8 < next then m.start else none
  elements := if 9 < next then m.elements else []
  bodies := if 10 < next then m.bodies else []
  data := if 11 < next then m.data else []

/-- What has been read when nothing is left. -/
def Module.draft (m : Module) : Draft :=
  { m.draftBefore 12 with customSections := m.customSections }

theorem zipWith_declared_bodies (functions : List Function) :
    List.zipWith (fun t b => Function.defined t b.locals b.code.toArray)
        ((functions.filter fun f => !f.isImported).map Function.type)
        (functions.filterMap Function.body?) =
      functions.filter fun f => !f.isImported := by
  induction functions with
  | nil => rfl
  | cons f rest ih =>
    cases f with
    | imported t n => exact ih
    | defined t locals code => exact congrArg (Function.defined t locals code :: ·) ih

theorem filter_append_ownLimits {storage : Array Storage}
    (h : ImportsFirst Storage.isImported storage.toList) :
    (storage.toList.filter Storage.isImported).toArray ++
      ((Module.ownLimits storage).map (⟨·, none⟩)).toArray = storage := by
  have hown : (Module.ownLimits storage).map (⟨·, none⟩) =
      storage.toList.filter fun s => !s.isImported := by
    rw [Module.ownLimits, List.map_map]
    refine (List.map_congr_left fun s hs => ?_).trans (List.map_id _)
    obtain ⟨l, source⟩ := s
    have hnone : source = none := by simpa [Storage.isImported] using (List.mem_filter.mp hs).2
    subst hnone
    rfl
  rw [hown, h.toArray_append]

theorem toModule_draft {m : Module} (h : m.Encodable) : m.draft.toModule = m := by
  have hfunctions : m.draft.toModule.functions = m.functions := by
    show _ ++ List.toArray (List.zipWith _ _ _) = _
    exact (congrArg (_ ++ List.toArray ·) (zipWith_declared_bodies _)).trans
      h.importsFirst.toArray_append
  have hglobals : m.draft.globals = m.globals := h.globalsFirst.toArray_append
  have htables : m.draft.tables = m.tables := filter_append_ownLimits h.tablesFirst
  have hmemories : m.draft.memories = m.memories :=
    filter_append_ownLimits (importsFirst_of_length_le_one _ (by simpa using h.oneMemory))
  obtain ⟨types, functions, tables, memories, globals, exports, elements, data, customs, start⟩ := m
  simp only [Draft.toModule] at hfunctions ⊢
  rw [hfunctions, hglobals, htables, hmemories]
  rfl

/-! ## Sections -/

namespace Decoder

variable {d d' d₁ d₂ : Draft} {first : Nat} {last id : UInt8} {secs : List (UInt8 × List UInt8)}

/-- A run over the sections makes one draft of the other, if the last id was below `first`. -/
def Loads (first : Nat) (d : Draft) (secs : List (UInt8 × List UInt8)) (d' : Draft) : Prop :=
  (∀ s ∈ secs, s.2.length < sizeLimit) → ∀ last : UInt8, last.toNat < first → ∀ offset n,
    (secs.flatMap Module.sectionBytes).length ≤ n →
      ∃ c, sections last d n ⟨offset, secs.flatMap Module.sectionBytes⟩ = .ok (d', c)

theorem loads_nil : Loads first d [] d := by
  intro _ last _ offset n _
  cases n <;> exact ⟨_, rfl⟩

theorem length_unsigned {more n : Nat} (h : n < 16 * 128 ^ more) :
    (Encode.unsigned n).length ≤ more + 1 := by
  induction more generalizing n with
  | zero =>
    rw [Encode.unsigned, if_pos (by omega)]
    simp
  | succ more ih =>
    rw [Encode.unsigned]
    split
    · simp
    · have := ih (n := n / 128) (by rw [Nat.pow_succ] at h; omega)
      rw [List.length_cons]
      omega

/-- A section that stands in order gives its id and the draft with its content. -/
theorem oneSection_ok {content : List UInt8} (hfill : Fills (d.readSection id) content d')
    (hsize : content.length < sizeLimit) (hid : id ≤ Draft.maxSectionId)
    (horder : id = 0 ∨ last < id) (offset : Nat) (rest : List UInt8) :
    ∃ offset', oneSection last d ⟨offset, Module.sectionBytes (id, content) ++ rest⟩ =
      .ok ((if id = 0 then last else id, d'), ⟨offset', rest⟩) := by
  have hwindow : Reads (require (id ≤ Draft.maxSectionId) (.unknownSection id) >>= fun _ =>
      require (id = 0 || last < id) .sectionOrder >>= fun _ =>
        within content.length .sectionSize (d.readSection id) >>= fun d =>
          pure (if id = 0 then last else id, d)) content (if id = 0 then last else id, d') :=
    Reads.require_bind (by simpa using hid) (Reads.require_bind (by simpa using horder)
      (hfill.within _).map)
  have hlen : (Encode.unsigned content.length).length ≤ 5 :=
    length_unsigned (show content.length < 16 * 128 ^ 4 from hsize)
  have hread := reads_unsigned hsize (by unfold sizeLimit; omega) (offset + 1) (content ++ rest)
  refine ⟨offset + 1 + (Encode.unsigned content.length).length + content.length, ?_⟩
  unfold oneSection
  rw [Module.sectionBytes, Encode.sized, List.cons_append, List.append_assoc,
    bind_ok (d := byte) rfl, bind_ok hread, toNat_toUInt32 hsize]
  exact hwindow hsize _ rest

/-- One more section in front. -/
theorem Loads.cons {next : Nat} {content : List UInt8}
    (hfill : Fills (d.readSection id) content d₁) (hid : id ≤ Draft.maxSectionId)
    (horder : id = 0 ∨ first ≤ id.toNat) (hnext : id.toNat < next ∧ first ≤ next)
    (h : Loads next d₁ secs d') : Loads first d ((id, content) :: secs) d' := by
  intro hsizes last hlast offset n hn
  obtain ⟨hsize, hsizes⟩ := List.forall_mem_cons.mp hsizes
  rw [List.flatMap_cons] at hn ⊢
  have hlt : id = 0 ∨ last < id := horder.imp_right fun hle =>
    UInt8.lt_iff_toNat_lt.mpr (by omega)
  obtain ⟨offset', hone⟩ := oneSection_ok hfill hsize hid hlt offset
    (secs.flatMap Module.sectionBytes)
  have hlast' : (if id = 0 then last else id).toNat < next := by
    split <;> omega
  cases n with
  | zero => exact absurd hn (by simp [Module.sectionBytes])
  | succ n =>
    obtain ⟨c, hc⟩ := h hsizes _ hlast' offset' n (by
      simp only [Module.sectionBytes, List.length_append, List.length_cons] at hn
      omega)
    refine ⟨c, ?_⟩
    rw [sections, bind_ok (d := atEnd) rfl, if_neg (by simp [Module.sectionBytes]), bind_ok hone]
    exact hc

/-- Where nothing with id `first` comes, the next section may. -/
theorem Loads.skip (h : Loads (first + 1) d secs d') : Loads first d secs d' :=
  fun hsizes last hlast => h hsizes last (Nat.lt_succ_of_lt hlast)

/-- A section with a vector. When that is empty and left out, the draft has to stay the same. -/
theorem Loads.filled {α : Type} {enc : α → List UInt8} {items : List α}
    (hfirst : id.toNat = first) (hid : id ≤ Draft.maxSectionId)
    (hfill : Fills (d.readSection id) (Encode.vector enc items) d₁) (hnil : items = [] → d₁ = d)
    (hd : d₁ = d₂) (h : Loads (first + 1) d₂ secs d') :
    Loads first d (Module.filled id enc items ++ secs) d' := by
  subst hd
  unfold Module.filled
  cases items with
  | nil =>
    rw [hnil rfl] at h
    exact h.skip
  | cons a items => exact Loads.cons hfill hid (Or.inr (Nat.le_of_eq hfirst.symm)) (by omega) h

/-- A section with one value, left out when there is none. -/
theorem Loads.option {α : Type} {enc : α → List UInt8} {item : Option α} {put : Option α → Draft}
    (hfirst : id.toNat = first) (hid : id ≤ Draft.maxSectionId)
    (hfill : ∀ a, Fills (d.readSection id) (enc a) (put (some a))) (hnone : put none = d)
    (hd : put item = d₂) (h : Loads (first + 1) d₂ secs d') :
    Loads first d (item.toList.map (fun a => (id, enc a)) ++ secs) d' := by
  subst hd
  cases item with
  | none =>
    rw [hnone] at h
    exact h.skip
  | some a => exact Loads.cons (hfill a) hid (Or.inr (Nat.le_of_eq hfirst.symm)) (by omega) h

/-! ### One section after the other -/

/-- Imports of one kind go one after the other to where `put` has them. -/
theorem foldl_map_addImport {α : Type} {kind : α → Import} (put : Array α → Draft)
    (h : ∀ items a, (put items).addImport (kind a) = put (items.push a)) (items : Array α)
    (more : List α) : (more.map kind).foldl Draft.addImport (put items) =
      put (items ++ more.toArray) := by
  induction more generalizing items with
  | nil => simp
  | cons a more ih =>
    rw [List.map_cons, List.foldl_cons, h, ih]
    simp

theorem foldl_addImport (d : Draft) (functions : List Function) (tables memories : List Storage)
    (globals : List Global) :
    (functions.map Import.function ++ tables.map Import.table ++ memories.map Import.memory ++
        globals.map Import.global).foldl Draft.addImport d =
      { d with
        imported := d.imported ++ functions.toArray
        tables := d.tables ++ tables.toArray
        memories := d.memories ++ memories.toArray
        globals := d.globals ++ globals.toArray } := by
  have hfunctions : ∀ d : Draft, (functions.map Import.function).foldl Draft.addImport d =
      { d with imported := d.imported ++ functions.toArray } := fun d =>
    foldl_map_addImport (fun items => { d with imported := items }) (fun _ _ => rfl) _ _
  have htables : ∀ d : Draft, (tables.map Import.table).foldl Draft.addImport d =
      { d with tables := d.tables ++ tables.toArray } := fun d =>
    foldl_map_addImport (fun items => { d with tables := items }) (fun _ _ => rfl) _ _
  have hmemories : ∀ d : Draft, (memories.map Import.memory).foldl Draft.addImport d =
      { d with memories := d.memories ++ memories.toArray } := fun d =>
    foldl_map_addImport (fun items => { d with memories := items }) (fun _ _ => rfl) _ _
  have hglobals : ∀ d : Draft, (globals.map Import.global).foldl Draft.addImport d =
      { d with globals := d.globals ++ globals.toArray } := fun d =>
    foldl_map_addImport (fun items => { d with globals := items }) (fun _ _ => rfl) _ _
  rw [List.foldl_append, List.foldl_append, List.foldl_append, hfunctions, htables, hmemories,
    hglobals]

theorem fills_types (d : Draft) (types : List FuncType) :
    Fills (d.readSection 1) (Encode.vector Encode.funcType types)
      { d with types := types.toArray } :=
  (reads_vector (fun t _ => reads_funcType t) (by simp [Encode.funcType])).map.fills

theorem fills_imports {imports : List Import}
    (h : ∀ i ∈ imports, i.Checked d.types.size ∧ i.Named) :
    Fills (d.readSection 2) (Encode.vector Encode.importEntry imports)
      (imports.foldl Draft.addImport d) :=
  (reads_vector (fun i hi => reads_importEntry (h i hi).1 (h i hi).2)
    fun i _ => by cases i <;> simp [Encode.importEntry, Encode.tableLimits]).map.fills

theorem fills_declared {types : List UInt32} (h : ∀ t ∈ types, t.toNat < d.types.size) :
    Fills (d.readSection 3) (Encode.vector Encode.u32 types) { d with declared := types } :=
  (reads_vector (fun t ht => reads_typeIndex (h t ht)) fun _ _ => unsigned_ne_nil _).map.fills

theorem fills_tables (d : Draft) {tables : List Limits} (h : ∀ l ∈ tables, l.Ordered) :
    Fills (d.readSection 4) (Encode.vector Encode.tableLimits tables)
      { d with tables := d.tables ++ (tables.map (⟨·, none⟩)).toArray } :=
  (reads_vector (fun l hl => reads_tableLimits (h l hl)) (by simp [Encode.tableLimits])).map.fills

theorem limits_ne_nil (l : Limits) : Encode.limits l ≠ [] := by
  unfold Encode.limits
  split <;> simp

theorem fills_memories {memories : List Limits} (h : ∀ l ∈ memories, l.Ordered ∧ l.Addressable)
    (hone : d.memories.size + memories.length ≤ 1) :
    Fills (d.readSection 5) (Encode.vector Encode.limits memories)
      { d with memories := d.memories ++ (memories.map (⟨·, none⟩)).toArray } :=
  ((reads_vector (fun l hl => reads_memoryLimits (h l hl).1 (h l hl).2)
    fun l _ => limits_ne_nil l).checked (by simpa using hone)).fills

theorem fills_globals (d : Draft) {globals : List Global} (h : ∀ g ∈ globals, g.isImported = false) :
    Fills (d.readSection 6) (Encode.vector Encode.globalEntry globals)
      { d with globals := d.globals ++ globals.toArray } :=
  (reads_vector (fun g hg => reads_globalEntry (h g hg))
    (by simp [Encode.globalEntry, Encode.globalType])).map.fills

theorem fills_exports (d : Draft) {exports : List Export} (h : ∀ e ∈ exports, Octets.IsText e.name) :
    Fills (d.readSection 7) (Encode.vector Encode.exportEntry exports)
      { d with exports := exports } :=
  (reads_vector (fun e he => reads_exportEntry (h e he)) (by simp [Encode.exportEntry])).map.fills

theorem fills_start (d : Draft) (f : UInt32) :
    Fills (d.readSection 8) (Encode.u32 f) { d with start := some f } :=
  (reads_u32 f).map.fills

theorem initExpr_ne_nil (e : InitExpr) : Encode.initExpr e ≠ [] := by
  cases e <;> simp [Encode.initExpr, Encode.instr]

theorem fills_elements (d : Draft) {elements : List ElementSegment} (h : ∀ s ∈ elements, s.table = 0) :
    Fills (d.readSection 9) (Encode.vector Encode.elementSegment elements)
      { d with elements := elements } :=
  (reads_vector (fun s hs => reads_elementSegment (h s hs))
    (by simp [Encode.elementSegment, initExpr_ne_nil])).map.fills

theorem fills_bodies {bodies : List Body} (h : ∀ b ∈ bodies, b.WellFormed)
    (hlen : d.declared.length = bodies.length) :
    Fills (d.readSection 10) (Encode.vector Encode.sizedBody bodies) { d with bodies := bodies } := by
  have hbodies := (reads_functionBodies h).map (g := fun bodies => { d with bodies := bodies })
  rw [← hlen] at hbodies
  exact hbodies.fills

theorem fills_data (d : Draft) {data : List DataSegment} (h : ∀ s ∈ data, s.memory = 0) :
    Fills (d.readSection 11) (Encode.vector Encode.dataSegment data) { d with data := data } :=
  (reads_vector (fun s hs => reads_dataSegment (h s hs))
    (by simp [Encode.dataSegment, initExpr_ne_nil])).map.fills

theorem loads_customs (d : Draft) {customs : List CustomSection}
    (h : ∀ c ∈ customs, Octets.IsText c.name) (hfirst : 0 < first) :
    Loads first d (customs.map fun c => (0, Encode.custom c))
      { d with customSections := d.customSections ++ customs } := by
  induction customs generalizing d with
  | nil => simpa using loads_nil
  | cons c rest ih =>
    obtain ⟨hc, hrest⟩ := List.forall_mem_cons.mp h
    have hone : Fills (d.readSection 0) (Encode.custom c)
        { d with customSections := d.customSections ++ [c] } := (fills_custom hc).map
    have hmore := ih { d with customSections := d.customSections ++ [c] } hrest
    simp only [List.append_assoc, List.singleton_append] at hmore
    exact Loads.cons hone (by decide) (Or.inl rfl) ⟨hfirst, Nat.le_refl _⟩ hmore

end Decoder

/-! ## The whole module -/

namespace Module

open Decoder

variable {m : Module}

theorem Encodable.imports_ok (h : m.Encodable) :
    ∀ i ∈ m.imports, i.Checked m.types.size ∧ i.Named := by
  have named : ∀ i ∈ m.imports, i.name?.isSome → i.Named := by
    intro i hi hname
    obtain ⟨n, hn⟩ := Option.isSome_iff_exists.mp hname
    exact ⟨n, hn, h.importNames i hi n hn⟩
  intro i hi
  have hmem := hi
  simp only [imports, List.mem_append, List.mem_map, List.mem_filter, Array.mem_toList_iff] at hmem
  obtain ((⟨f, ⟨hf, himp⟩, rfl⟩ | ⟨t, ⟨ht, himp⟩, rfl⟩) | ⟨s, ⟨hs, himp⟩, rfl⟩) |
    ⟨g, ⟨-, himp⟩, rfl⟩ := hmem
  · refine ⟨⟨himp, (h.functions f hf).1⟩, named _ hi ?_⟩
    cases f with
    | imported t n => rfl
    | defined t locals code => exact absurd himp (by simp [Function.isImported])
  · exact ⟨h.tables t ht, named _ hi himp⟩
  · exact ⟨h.memories s hs, named _ hi himp⟩
  · exact ⟨trivial, named _ hi himp⟩

theorem forall_mem_ownLimits {storage : Array Storage} {P : Limits → Prop}
    (h : ∀ s ∈ storage, P s.limits) : ∀ l ∈ ownLimits storage, P l := by
  intro l hl
  obtain ⟨s, hs, rfl⟩ := List.mem_map.mp hl
  exact h s (Array.mem_toList_iff.mp (List.mem_filter.mp hs).1)

theorem Encodable.declared_ok (h : m.Encodable) : ∀ t ∈ m.declared, t.toNat < m.types.size := by
  intro t ht
  obtain ⟨f, hf, rfl⟩ := List.mem_map.mp ht
  exact (h.functions f (Array.mem_toList_iff.mp (List.mem_filter.mp hf).1)).1

theorem Encodable.bodies_ok (h : m.Encodable) : ∀ b ∈ m.bodies, b.WellFormed := by
  intro b hb
  obtain ⟨f, hf, hbody⟩ := List.mem_filterMap.mp hb
  cases f with
  | imported t n => exact absurd hbody (by simp [Function.body?])
  | defined t locals code =>
    cases hbody
    exact (h.functions _ (Array.mem_toList_iff.mp hf)).2 _ _ _ rfl

theorem length_declared (m : Module) : m.declared.length = m.bodies.length := by
  unfold declared bodies
  induction m.functions.toList with
  | nil => rfl
  | cons f rest ih =>
    cases f with
    | imported t n => exact ih
    | defined t locals code => exact congrArg (· + 1) ih

theorem Encodable.memories_ok (h : m.Encodable) :
    (m.memories.toList.filter Storage.isImported).length + (ownLimits m.memories).length ≤ 1 := by
  have hfirst : ImportsFirst Storage.isImported m.memories.toList :=
    importsFirst_of_length_le_one _ (by simpa using h.oneMemory)
  have hlen := congrArg List.length hfirst.filter_append
  rw [List.length_append] at hlen
  rw [ownLimits, List.length_map, hlen, Array.length_toList]
  exact h.oneMemory

theorem foldl_imports (m : Module) :
    m.imports.foldl Draft.addImport (m.draftBefore 2) = m.draftBefore 3 := by
  rw [imports, foldl_addImport]
  simp [draftBefore]

/-- **The sections of a module are read into its draft.** -/
theorem Encodable.loads (h : m.Encodable) : Loads 1 {} m.sections m.draft := by
  unfold sections
  show Loads 1 (m.draftBefore 1) _ _
  refine Loads.filled rfl (by decide) (fills_types _ _) (fun hn => by rw [hn]; rfl)
    (show _ = m.draftBefore 2 from rfl) ?_
  refine Loads.filled rfl (by decide) (fills_imports h.imports_ok) (fun hn => by rw [hn]; rfl)
    m.foldl_imports ?_
  refine Loads.filled rfl (by decide) (fills_declared h.declared_ok) (fun hn => by rw [hn]; rfl)
    (show _ = m.draftBefore 4 from rfl) ?_
  refine Loads.filled rfl (by decide) (fills_tables _ (forall_mem_ownLimits h.tables))
    (fun hn => by rw [hn]; simp) (show _ = m.draftBefore 5 from rfl) ?_
  refine Loads.filled rfl (by decide) (fills_memories (forall_mem_ownLimits h.memories) ?_)
    (fun hn => by rw [hn]; simp) (show _ = m.draftBefore 6 from rfl) ?_
  · exact h.memories_ok
  refine Loads.filled rfl (by decide) (fills_globals _ ?_) (fun hn => by rw [hn]; simp)
    (show _ = m.draftBefore 7 from rfl) ?_
  · exact fun g hg => by simpa using (List.mem_filter.mp hg).2
  refine Loads.filled rfl (by decide) (fills_exports _ h.exportNames) (fun hn => by rw [hn]; rfl)
    (show _ = m.draftBefore 8 from rfl) ?_
  refine Loads.option rfl (by decide) (fills_start _) rfl (show _ = m.draftBefore 9 from rfl) ?_
  refine Loads.filled rfl (by decide) (fills_elements _ fun s hs => (h.elements s hs).1)
    (fun hn => by rw [hn]; rfl) (show _ = m.draftBefore 10 from rfl) ?_
  refine Loads.filled rfl (by decide) (fills_bodies h.bodies_ok m.length_declared)
    (fun hn => by rw [hn]; rfl) (show _ = m.draftBefore 11 from rfl) ?_
  refine Loads.filled rfl (by decide) (fills_data _ fun s hs => (h.data s hs).1)
    (fun hn => by rw [hn]; rfl) (show _ = m.draftBefore 12 from rfl) ?_
  exact loads_customs _ h.customNames (by decide)

/-- The last checks find nothing. -/
theorem Encodable.invalidIndex?_draft (h : m.Encodable) : m.draft.invalidIndex? = none := by
  have hcount : m.draft.functionCount = m.functions.size := by
    rw [← Draft.size_functions_toModule m.length_declared, toModule_draft h]
  have htables : m.draft.tables = m.tables := congrArg Module.tables (toModule_draft h)
  have hmemories : m.draft.memories = m.memories := congrArg Module.memories (toModule_draft h)
  have hglobals : m.draft.globals = m.globals := congrArg Module.globals (toModule_draft h)
  refine Draft.invalidIndex?_eq_none_iff.mpr ⟨fun e he => ?_, ?_, ?_, ?_, ?_⟩
  · have hknown := h.exports e he
    unfold Draft.exportIsKnown
    rw [hcount, htables, hmemories, hglobals]
    exact decide_eq_true hknown
  · rw [hcount]
    exact h.start
  · rw [htables]
    exact fun s hs => (h.elements s hs).2.1
  · rw [hcount]
    exact fun s hs => (h.elements s hs).2.2
  · rw [hmemories]
    exact fun s hs => (h.data s hs).2

end Module

theorem Decoder.header_ok (offset : Nat) (rest : List UInt8) :
    Decoder.header ⟨offset, [0x00, 0x61, 0x73, 0x6D, 0x01, 0x00, 0x00, 0x00] ++ rest⟩ =
      .ok ((), ⟨offset + 8, rest⟩) := rfl

/-- **Reading undoes writing**, over the whole format. -/
theorem ofBytes?_encode {m : Module} (h : m.Encodable) : Module.ofBytes? m.encode = .ok m := by
  obtain ⟨c, hsections⟩ := h.loads h.sizes 0 (by decide) 8 _ (Nat.le_refl _)
  have hlen : Decoder.require (m.draft.declared.length = m.draft.bodies.length) .bodyCount =
      pure () := if_pos (decide_eq_true m.length_declared)
  have hmodule : Decoder.module ⟨0, m.encode⟩ = .ok (m, c) := by
    unfold Decoder.module Module.encode
    rw [Decoder.bind_ok (Decoder.header_ok 0 _),
      Decoder.bind_ok (d := fun c => Decoder.sections 0 {} c.rest.length c) hsections, hlen,
      pure_bind, h.invalidIndex?_draft, toModule_draft h]
    rfl
  unfold Module.ofBytes? Decoder.run?
  rw [hmodule]
  rfl

/-- The encoding of the small module is the bytes that it was read from. -/
example : smallModule.encode = smallBytes := by decide +kernel

theorem ofBytes?_encode_small :
    smallModule.Encodable ∧ Module.ofBytes? smallModule.encode = .ok smallModule := by
  have h : smallModule.Encodable := {
    Decoder.yields_module.run? ofBytes?_smallBytes with
    tablesFirst := importsFirst_of_length_le_one _ (by decide)
    globalsFirst := importsFirst_of_length_le_one _ (by decide)
    oneMemory := by decide
    importNames := by decide +kernel
    exportNames := by decide +kernel
    customNames := by decide +kernel
    sizes := by decide +kernel }
  exact ⟨h, ofBytes?_encode h⟩

end WasmDebugger
