import WasmDebugger.Proofs.Brackets
import WasmDebugger.Proofs.Decoding

/-!
# What is true of every module that was read

A machine uses the indices, targets and immediates of its module without looking whether they make
sense. `Module.WellFormed` says what it relies on.

* `Body.WellFormed`, `Function.WellFormed`, `Limits.Ordered`, `Module.WellFormed`: the parts and
  the whole.
* `Draft.Checked last`: what holds between two sections, the last of which had id `last`. The
  order of the sections is part of it: what refers to the types comes after them.
* **`wellFormed_of_ofBytes?`**: a module that was read is well formed.
-/

namespace WasmDebugger

open Nesting (Resolved WellBracketed)

/-! ## Well-formed parts -/

/-- The least size is not above the greatest. -/
def Limits.Ordered (l : Limits) : Prop := ∀ max, l.max = some max → l.min ≤ max

/-- No bound is above what 32-bit addresses reach. -/
def Limits.Addressable (l : Limits) : Prop :=
  l.min.toNat ≤ maxPages ∧ ∀ max, l.max = some max → max.toNat ≤ maxPages

/-- The immediates are those that the operation asks for. -/
structure Instr.Complete (i : Instr) : Prop where
  depths : ∀ depths, i = .brTable depths → depths ≠ []
  constant : ∀ t, i.opcode.immediate = .const t → ∃ v, i = .const v ∧ v.type = t

structure Body.WellFormed (b : Body) : Prop where
  locals : b.locals.length ≤ maxLocals
  bracketed : WellBracketed b.code
  resolved : Resolved b.code.toArray
  complete : ∀ i ∈ b.code, i.Complete

/-- The signature is one of `types`, and so is the body, if there is one. -/
def Function.WellFormed (types : Nat) (f : Function) : Prop :=
  f.type.toNat < types ∧
    ∀ type locals code, f = .defined type locals code → Body.WellFormed ⟨locals, code.toList⟩

/-- What the host provides comes first. -/
def ImportsFirst {α : Type} (isImported : α → Bool) (items : List α) : Prop :=
  ∃ imported own, items = imported ++ own ∧ (∀ a ∈ imported, isImported a = true) ∧
    ∀ a ∈ own, isImported a = false

/-- How many things of a kind a module has. -/
def Module.count (m : Module) : ExternalKind → Nat
  | .function => m.functions.size
  | .table => m.tables.size
  | .memory => m.memories.size
  | .global => m.globals.size

/-- A module that a machine can trust. -/
structure Module.WellFormed (m : Module) : Prop where
  importsFirst : ImportsFirst Function.isImported m.functions.toList
  bodiless : ∀ f ∈ m.functions, f.isImported = true → f.code? = none
  functions : ∀ f ∈ m.functions, f.WellFormed m.types.size
  exports : ∀ e ∈ m.exports, e.index.toNat < m.count e.kind
  start : ∀ f, m.start = some f → f.toNat < m.functions.size
  elements : ∀ s ∈ m.elements, s.table = 0 ∧ 0 < m.tables.size ∧
    ∀ f ∈ s.functions, f.toNat < m.functions.size
  data : ∀ s ∈ m.data, s.memory = 0 ∧ 0 < m.memories.size
  tables : ∀ t ∈ m.tables, t.limits.Ordered
  memories : ∀ s ∈ m.memories, s.limits.Ordered ∧ s.limits.Addressable

theorem Instr.Complete.of_bare {i j : Instr} (hj : j.Complete) (h : j.bare = i.bare) :
    i.Complete := by
  rcases Instr.eq_of_bare h with ⟨r, t, t', rfl, rfl⟩ | ⟨r, t, t', rfl, rfl⟩ |
    ⟨r, t, t', arm, arm', rfl, rfl⟩ | ⟨t, t', rfl, rfl⟩ | rfl
  · exact ⟨by simp, fun t ht => absurd ht (by simp [opcode, Opcode.immediate])⟩
  · exact ⟨by simp, fun t ht => absurd ht (by simp [opcode, Opcode.immediate])⟩
  · exact ⟨by simp, fun t ht => absurd ht (by simp [opcode, Opcode.immediate])⟩
  · exact ⟨by simp, fun t ht => absurd ht (by simp [opcode, Opcode.immediate])⟩
  · exact hj

/-! ## What the decoders of the parts give -/

namespace Decoder

theorem yields_constant (t : ValueType) : Yields (constant t) fun v => v.type = t := by
  cases t <;> exact yields_of_rest fun n => yields_pure rfl

theorem yields_labelTable : Yields labelTable fun depths => depths ≠ [] :=
  yields_of_rest fun depths => yields_of_rest fun otherwise => yields_pure (by simp)

/-- Behind the byte of an operation stand its own immediates, and no targets. -/
theorem yields_operands (op : Opcode) :
    Yields (operands op) fun i => i.opcode = op ∧ i.Complete ∧ i.bare = i := by
  cases op with
  | brTable =>
    refine yields_labelTable.bind fun depths hd => yields_pure ⟨rfl, ⟨?_, ?_⟩, rfl⟩
    · rintro _ ⟨⟩
      exact hd
    · exact fun t ht => absurd ht (by simp [Instr.opcode, Opcode.immediate])
  | const t =>
    refine (yields_constant t).bind fun v hv => yields_pure ⟨congrArg Opcode.const hv, ⟨?_, ?_⟩, rfl⟩
    · exact fun depths hd => absurd hd (by simp)
    · intro t' ht
      have ht' : v.type = t' := by simpa [Instr.opcode, Opcode.immediate] using ht
      exact ⟨v, rfl, ht'⟩
  | _ =>
    repeat refine yields_of_rest fun _ => ?_
    refine yields_pure ⟨rfl, ⟨?_, ?_⟩, rfl⟩
    · exact fun depths hd => absurd hd (by simp)
    · exact fun t ht => absurd ht (by simp [Instr.opcode, Opcode.immediate])

theorem yields_instr : Yields instr fun i => i.Complete ∧ i.bare = i := by
  refine yields_of_rest fun b => ?_
  split
  · exact (yields_operands _).mono fun _ h => h.2
  · exact yields_fail

theorem yields_localGroups (room groups : Nat) :
    Yields (localGroups room groups) fun l => l.length ≤ room := by
  induction groups generalizing room with
  | zero => exact yields_pure (Nat.zero_le room)
  | succ groups ih =>
    refine yields_of_rest fun n => yields_require.bind fun _ hn => yields_of_rest fun t =>
      (ih _).bind fun rest hr => yields_pure ?_
    rw [List.length_append, List.length_replicate]
    have hn : n.toNat ≤ room := by simpa using hn
    omega

theorem yields_body : Yields body Body.WellFormed := by
  unfold body
  refine yields_of_rest fun groups => (yields_localGroups _ _).bind fun locals hl =>
    yields_instr.untilEnd.bind fun code hc => yields_of_rest fun _ => ?_
  split
  · rename_i resolved hr
    have hbare := Nesting.map_bare_of_resolve hr
    have hunarmed : Nesting.Unarmed code := Nesting.unarmed_of_bare fun i hi => (hc i hi).2
    refine yields_pure ⟨hl, (Nesting.wellBracketed_of_resolve hr).of_bare hbare,
      Nesting.resolved_of_resolve hr hunarmed, fun i hi => ?_⟩
    -- the instruction differs in its targets at most from one that was read
    have hmem : i.bare ∈ code.map Instr.bare := by
      rw [← hbare]
      exact List.mem_map_of_mem hi
    obtain ⟨j, hj, he⟩ := List.mem_map.mp hmem
    exact (hc j hj).1.of_bare he
  · exact yields_fail

theorem yields_functionBodies (declared : Nat) :
    Yields (functionBodies declared) fun l => ∀ b ∈ l, b.WellFormed := by
  have hsized : Yields sizedBody Body.WellFormed :=
    yields_of_rest fun size => yields_body.within _ _
  exact yields_of_rest fun n => yields_of_rest fun _ => hsized.times n

theorem yields_limits : Yields limits Limits.Ordered := by
  refine yields_of_rest fun flags => yields_of_rest fun _ => yields_of_rest fun min => ?_
  split
  · exact yields_pure fun max hmax => absurd hmax (by simp)
  · refine yields_of_rest fun max => yields_require.bind fun _ hle => yields_pure ?_
    rintro _ ⟨⟩
    simpa using hle

theorem yields_memoryLimits :
    Yields memoryLimits fun l => l.Ordered ∧ l.Addressable := by
  refine yields_limits.bind fun l hl => yields_require.bind fun _ h => yields_pure ⟨hl, ?_⟩
  rw [Bool.and_eq_true, decide_eq_true_eq, Option.all_eq_true] at h
  exact ⟨h.1, fun max hmax => by simpa using h.2 max hmax⟩

theorem yields_tableLimits : Yields tableLimits Limits.Ordered :=
  yields_of_rest fun _ => yields_of_rest fun _ => yields_limits

theorem yields_typeIndex (known : Nat) : Yields (typeIndex known) fun t => t.toNat < known :=
  yields_of_rest fun t => yields_require.bind fun _ h => yields_pure (by simpa using h)

/-- What is known of something that the host provides. -/
def Import.Checked (types : Nat) : Import → Prop
  | .function f => f.isImported = true ∧ f.type.toNat < types
  | .table t => t.limits.Ordered
  | .memory m => m.limits.Ordered ∧ m.limits.Addressable
  | .global _ => True

theorem yields_importEntry (known : Nat) : Yields (importEntry known) (Import.Checked known) := by
  unfold importEntry
  refine yields_of_rest fun module => yields_of_rest fun field => yields_of_rest fun kind => ?_
  split
  · exact (yields_typeIndex known).bind fun t ht => yields_pure ⟨rfl, ht⟩
  · exact yields_tableLimits.bind fun l hl => yields_pure hl
  · exact yields_memoryLimits.bind fun l hl => yields_pure hl
  · exact yields_of_rest fun _ => yields_of_rest fun _ => yields_pure trivial
  · exact yields_fail

theorem yields_elementSegment : Yields elementSegment fun s => s.table = 0 :=
  yields_of_rest fun table => yields_require.bind fun _ h => yields_of_rest fun offset =>
    yields_of_rest fun functions => yields_pure (by simpa using h)

theorem yields_dataSegment : Yields dataSegment fun s => s.memory = 0 :=
  yields_of_rest fun memory => yields_require.bind fun _ h => yields_of_rest fun offset =>
    yields_of_rest fun size => yields_of_rest fun content => yields_pure (by simpa using h)

end Decoder

/-! ## Sections -/

/-- What is known of a draft behind a section with id `last`. Before the types have been read,
nothing refers to them. -/
structure Draft.Checked (last : UInt8) (d : Draft) : Prop where
  early : last = 0 → d.imported = #[] ∧ d.declared = []
  imported : ∀ f ∈ d.imported, f.isImported = true ∧ f.type.toNat < d.types.size
  declared : ∀ t ∈ d.declared, t.toNat < d.types.size
  bodies : ∀ b ∈ d.bodies, b.WellFormed
  tables : ∀ t ∈ d.tables, t.limits.Ordered
  memories : ∀ s ∈ d.memories, s.limits.Ordered ∧ s.limits.Addressable
  elements : ∀ s ∈ d.elements, s.table = 0
  data : ∀ s ∈ d.data, s.memory = 0

namespace Draft

open Decoder

variable {d : Draft} {last id : UInt8}

theorem checked_empty : Draft.Checked 0 {} := by
  constructor <;> simp

/-- Behind a section that is no custom section nothing is promised about the types. -/
theorem Checked.later (h : d.Checked last) (hid : id ≠ 0) : d.Checked id :=
  { h with early := fun h0 => absurd h0 hid }

theorem Checked.addImport (h : d.Checked last) (hlast : last ≠ 0) {i : Import}
    (hi : i.Checked d.types.size) : (d.addImport i).Checked last := by
  cases i with
  | function f =>
    exact { h with
      early := fun h0 => absurd h0 hlast
      imported := Array.forall_mem_push.mpr ⟨hi, h.imported⟩ }
  | table t => exact { h with tables := Array.forall_mem_push.mpr ⟨hi, h.tables⟩ }
  | memory s => exact { h with memories := Array.forall_mem_push.mpr ⟨hi, h.memories⟩ }
  | global _ => exact { h with }

theorem types_addImport (d : Draft) (i : Import) : (d.addImport i).types = d.types := by
  cases i <;> rfl

theorem Checked.addImports (h : d.Checked last) (hlast : last ≠ 0) {imports : List Import}
    (hi : ∀ i ∈ imports, i.Checked d.types.size) :
    (imports.foldl Draft.addImport d).Checked last := by
  induction imports generalizing d with
  | nil => exact h
  | cons i rest ih =>
    obtain ⟨hfirst, hrest⟩ := List.forall_mem_cons.mp hi
    refine ih (h.addImport hlast hfirst) ?_
    rw [types_addImport]
    exact hrest

/-- Storage that the module declares itself is appended to the imported one. -/
theorem forall_mem_own {P : Storage → Prop} {storage : Array Storage} {own : List Limits}
    (h : ∀ s ∈ storage, P s) (ho : ∀ l ∈ own, P ⟨l, none⟩) :
    ∀ s ∈ storage ++ (own.map (⟨·, none⟩)).toArray, P s := by
  refine Array.forall_mem_append.mpr ⟨h, fun s hs => ?_⟩
  obtain ⟨l, hl, rfl⟩ := List.mem_map.mp (List.mem_toArray.mp hs)
  exact ho l hl

/-- **A section keeps what is known.** -/
theorem Checked.readSection (h : d.Checked last) (hid : id = 0 ∨ last < id) :
    Yields (d.readSection id) (Checked (if id = 0 then last else id)) := by
  have hl : id ≠ 0 → d.Checked id := h.later
  unfold Draft.readSection
  split
  · exact yields_of_rest fun _ => yields_pure { h with }
  · -- nothing has been said about the types so far
    have hlast : last = 0 := by
      rcases hid with hid | hid
      · exact absurd hid (by decide)
      · have := UInt8.lt_iff_toNat_lt.mp hid
        exact UInt8.toNat_inj.mp (by simp at this; simpa using this)
    obtain ⟨himp, hdecl⟩ := h.early hlast
    refine yields_of_rest fun _ => yields_pure { hl (by decide) with imported := ?_, declared := ?_ }
    · simp [himp]
    · simp [hdecl]
  · exact (yields_importEntry _).vector.bind fun imports hi =>
      yields_pure ((hl (by decide)).addImports (by decide) hi)
  · exact (yields_typeIndex _).vector.bind fun declared hd =>
      yields_pure { hl (by decide) with early := by simp, declared := hd }
  · exact yields_tableLimits.vector.bind fun tables ht =>
      yields_pure { hl (by decide) with tables := forall_mem_own h.tables ht }
  · exact yields_memoryLimits.vector.bind fun memories hm => yields_of_rest fun _ =>
      yields_pure { hl (by decide) with memories := forall_mem_own h.memories hm }
  · exact yields_of_rest fun _ => yields_pure { hl (by decide) with }
  · exact yields_of_rest fun _ => yields_pure { hl (by decide) with }
  · exact yields_of_rest fun _ => yields_pure { hl (by decide) with }
  · exact yields_elementSegment.vector.bind fun elements he =>
      yields_pure { hl (by decide) with elements := he }
  · exact (yields_functionBodies _).bind fun bodies hb =>
      yields_pure { hl (by decide) with bodies := hb }
  · exact yields_dataSegment.vector.bind fun data hd =>
      yields_pure { hl (by decide) with data := hd }
  · refine yields_pure ?_
    split
    · exact h
    · exact hl ‹_›

/-- **A run over sections keeps what is known.** -/
theorem Checked.sections (h : d.Checked last) (n : Nat) :
    Yields (sections last d n) fun d => ∃ last, d.Checked last := by
  induction n generalizing last d with
  | zero => exact yields_pure ⟨last, h⟩
  | succ n ih =>
    refine yields_of_rest fun ended => ?_
    split
    · exact yields_pure ⟨last, h⟩
    · have hone : Yields (oneSection last d) fun r => r.2.Checked r.1 :=
        yields_of_rest fun id => yields_of_rest fun size => yields_of_rest fun _ =>
          yields_require.bind fun _ hid =>
            ((h.readSection (by simpa using hid)).within _ _).bind fun d hd => yields_pure hd
      exact hone.bind fun r hr => ih hr

/-! ## The whole module -/

/-- Segments are there only when what they fill is there. -/
theorem segments_ok_iff {α β : Type} {segments : List α} {targets : Array β} :
    (!segments.isEmpty && targets.isEmpty) = false ↔ ∀ s ∈ segments, 0 < targets.size := by
  cases segments with
  | nil => simp
  | cons s rest =>
    simp only [List.isEmpty_cons, Bool.not_false, Bool.true_and, Array.isEmpty_eq_false_iff,
      ← Array.size_pos_iff]
    exact ⟨fun h _ _ => h, fun h => h s List.mem_cons_self⟩

/-- **The last checks**: every index between the sections refers to something. -/
theorem invalidIndex?_eq_none_iff : d.invalidIndex? = none ↔
    (∀ e ∈ d.exports, d.exportIsKnown e = true) ∧
      (∀ f, d.start = some f → f.toNat < d.functionCount) ∧
      (∀ s ∈ d.elements, 0 < d.tables.size) ∧
      (∀ s ∈ d.elements, ∀ f ∈ s.functions, f.toNat < d.functionCount) ∧
      ∀ s ∈ d.data, 0 < d.memories.size := by
  have hexports : (d.exports.find? fun e => !d.exportIsKnown e) = none ↔
      ∀ e ∈ d.exports, d.exportIsKnown e = true := by
    simp [List.find?_eq_none]
  have hstart : (d.start.any fun f => d.functionCount ≤ f.toNat) = false ↔
      ∀ f, d.start = some f → f.toNat < d.functionCount := by
    simp [Option.any_eq_false]
  have hknown : (d.elements.any fun s => s.functions.any fun f => d.functionCount ≤ f.toNat) =
      false ↔ ∀ s ∈ d.elements, ∀ f ∈ s.functions, f.toNat < d.functionCount := by
    simp [List.any_eq_false]
  rw [← hexports, ← hstart, ← segments_ok_iff, ← hknown, ← segments_ok_iff]
  unfold invalidIndex?
  split
  · simp [*]
  · rename_i hnone
    rw [hnone]
    repeat' split
    all_goals simp [*]

theorem toList_functions_toModule (d : Draft) : d.toModule.functions.toList =
    d.imported.toList ++
      (d.declared.zip d.bodies).map fun b => .defined b.1 b.2.locals b.2.code.toArray := by
  simp only [toModule, Array.toList_append, List.map_zip_eq_zipWith]
  rfl

theorem size_functions_toModule (h : d.declared.length = d.bodies.length) :
    d.toModule.functions.size = d.functionCount := by
  rw [← Array.length_toList, toList_functions_toModule]
  simp [functionCount, h]

/-- **A draft that passes the last checks is a well-formed module.** -/
theorem Checked.toModule (h : d.Checked last) (hlen : d.declared.length = d.bodies.length)
    (hindex : d.invalidIndex? = none) : d.toModule.WellFormed := by
  obtain ⟨hexports, hstart, htable, helements, hmemory⟩ := invalidIndex?_eq_none_iff.mp hindex
  rw [← size_functions_toModule hlen] at hstart helements
  have hown : ∀ b ∈ d.declared.zip d.bodies, b.1.toNat < d.types.size ∧ b.2.WellFormed :=
    fun b hb => ⟨h.declared _ (List.of_mem_zip hb).1, h.bodies _ (List.of_mem_zip hb).2⟩
  have hfunctions : ∀ f ∈ d.toModule.functions, f ∈ d.imported ∨
      ∃ b ∈ d.declared.zip d.bodies, f = .defined b.1 b.2.locals b.2.code.toArray := by
    intro f hf
    rw [← Array.mem_toList_iff, toList_functions_toModule, List.mem_append] at hf
    rcases hf with hf | hf
    · exact Or.inl (Array.mem_toList_iff.mp hf)
    · obtain ⟨b, hb, rfl⟩ := List.mem_map.mp hf
      exact Or.inr ⟨b, hb, rfl⟩
  refine ⟨⟨_, _, toList_functions_toModule d, ?_, ?_⟩, ?_, ?_, ?_, hstart, ?_, ?_, h.tables,
    h.memories⟩
  · exact fun f hf => (h.imported f (Array.mem_toList_iff.mp hf)).1
  · intro f hf
    obtain ⟨b, -, rfl⟩ := List.mem_map.mp hf
    rfl
  · intro f _ hf
    cases f with
    | imported _ _ => rfl
    | defined _ _ _ => exact absurd hf (by simp [Function.isImported])
  · intro f hf
    rcases hfunctions f hf with hf | ⟨b, hb, rfl⟩
    · refine ⟨(h.imported f hf).2, ?_⟩
      rintro type locals code rfl
      exact absurd (h.imported _ hf).1 (by simp [Function.isImported])
    · refine ⟨(hown b hb).1, ?_⟩
      rintro _ _ _ ⟨⟩
      exact (hown b hb).2
  · intro e he
    have hknown := hexports e he
    rw [exportIsKnown, decide_eq_true_eq, ← size_functions_toModule hlen] at hknown
    exact hknown
  · exact fun s hs => ⟨h.elements s hs, htable s hs, helements s hs⟩
  · exact fun s hs => ⟨h.data s hs, hmemory s hs⟩

end Draft

/-- Whatever the decoder of modules gives is well formed. -/
theorem Decoder.yields_module : Yields Decoder.module Module.WellFormed := by
  refine yields_of_rest fun _ => ?_
  have hsections : Yields (fun c => sections 0 {} c.rest.length c)
      fun d => ∃ last, d.Checked last :=
    fun c => Draft.checked_empty.sections c.rest.length c
  refine hsections.bind fun d ⟨last, hd⟩ => yields_require.bind fun _ hlen => ?_
  split
  · exact yields_fail
  · rename_i hindex
    exact yields_pure (hd.toModule (by simpa using hlen) hindex)

theorem Decoder.Yields.run? {α : Type} {d : Decoder α} {P : α → Prop} (h : Yields d P)
    {input : List UInt8} {a : α} (ha : d.run? input = .ok a) : P a := by
  unfold Decoder.run? at ha
  cases hr : d ⟨0, input⟩ with
  | error _ =>
    rw [hr] at ha
    cases ha
  | ok r =>
    rw [hr] at ha
    cases ha
    exact h _ _ _ hr

/-- **A module that was read is well formed**: its imports come first and have no bodies, all
indices refer to something, every body is resolved and its immediates are complete, and bounds are
in order. -/
theorem wellFormed_of_ofBytes? {input : List UInt8} {m : Module}
    (h : Module.ofBytes? input = .ok m) : m.WellFormed :=
  Decoder.yields_module.run? h

/-- Bytes with a section of every kind, the body with a branch table and an `if` of two arms. -/
def smallBytes : List UInt8 :=
  [0x00, 0x61, 0x73, 0x6D, 0x01, 0x00, 0x00, 0x00,
   0x01, 0x09, 0x02, 0x60, 0x01, 0x7F, 0x01, 0x7F, 0x60, 0x00, 0x00,
   0x02, 0x07, 0x01, 0x01, 0x6D, 0x01, 0x66, 0x00, 0x01,
   0x03, 0x02, 0x01, 0x00,
   0x04, 0x05, 0x01, 0x70, 0x01, 0x01, 0x02,
   0x05, 0x03, 0x01, 0x00, 0x01,
   0x06, 0x07, 0x01, 0x7E, 0x01, 0x42, 0xC0, 0x00, 0x0B,
   0x07, 0x05, 0x01, 0x01, 0x65, 0x00, 0x01,
   0x08, 0x01, 0x00,
   0x09, 0x07, 0x01, 0x00, 0x41, 0x00, 0x0B, 0x01, 0x01,
   0x0A, 0x19, 0x01, 0x17, 0x01, 0x02, 0x7E,
     0x02, 0x40, 0x20, 0x00, 0x0E, 0x01, 0x00, 0x00, 0x0B,
     0x20, 0x00, 0x04, 0x7F, 0x41, 0x01, 0x05, 0x41, 0x7F, 0x0B, 0x0B,
   0x0B, 0x08, 0x01, 0x00, 0x41, 0x00, 0x0B, 0x02, 0x01, 0x02,
   0x00, 0x03, 0x01, 0x63, 0x09]

/-- What `smallBytes` spells. -/
def smallModule : Module where
  types := #[⟨[.i32], [.i32]⟩, ⟨[], []⟩]
  functions := #[.imported 1 ⟨"m", "f"⟩, .defined 0 [.i64, .i64]
    #[.block none (some 3), .localGet 0, .brTable [0, 0], .blockEnd, .localGet 0,
      .ifThen (some .i32) (some 9) (some 7), .const (.i32 1), .elseThen (some 9),
      .const (.i32 (-1)), .blockEnd, .blockEnd]]
  tables := #[⟨⟨1, some 2⟩, none⟩]
  memories := #[⟨⟨1, none⟩, none⟩]
  globals := #[⟨.i64, true, .init (.const (.i64 64))⟩]
  exports := [⟨"e", .function, 1⟩]
  elements := [⟨0, .const (.i32 0), [1]⟩]
  data := [⟨0, .const (.i32 0), [1, 2]⟩]
  customSections := [⟨"c", [9]⟩]
  start := some 0

theorem ofBytes?_smallBytes : Module.ofBytes? smallBytes = .ok smallModule := by
  have h : (Module.ofBytes? smallBytes).toOption = some smallModule := by decide +kernel
  cases hm : Module.ofBytes? smallBytes <;> simp_all [Except.toOption]

theorem wellFormed_of_ofBytes?_small :
    Module.ofBytes? smallBytes = .ok smallModule ∧ smallModule.WellFormed :=
  ⟨ofBytes?_smallBytes, wellFormed_of_ofBytes? ofBytes?_smallBytes⟩

end WasmDebugger
