import WasmDebugger.Proofs.Layout
import WasmDebugger.Proofs.PaidEntries

/-!
# What malformed bytes can make grow

The forward pass over a module ends on every input, and all that it has gathered by then, an error
or not, is bounded by the bytes of the input.

* `Pass.Charged.run`: a pass from the front of an input comes to what its decoder comes to.
* `Pass.charged_module`, `Pass.charged_names`: what the passes over a module and over a section for
  names cost. `Pass.FewLocals`: no function has more locals than are allowed.
* **`reading_bounded`**: the passes end as the decoders do, with their readers used properly, and
  have gathered no more than a fixed multiple of the length of the input.
-/

namespace WasmDebugger

/-! ## Decoders -/

namespace Decoder

theorem local_oneSection (last : UInt8) (d : Draft) : Local 1 (oneSection last d) :=
  local_byte.first fun _ => local_u32.weaken.first fun _ =>
    local_require.first fun _ => local_require.first fun _ =>
      ((windowed_readSection _ _).within _ _).weaken.first fun _ => local_pure

/-- The sections as rounds to the end. -/
theorem sections_eq (last : UInt8) (d : Draft) (n : Nat) : sections last d n =
    Prod.snd <$> rounds (fun s : UInt8 × Draft => oneSection s.1 s.2) (last, d) n := by
  induction n generalizing last d with
  | zero => simp [sections, rounds]
  | succ n ih =>
    unfold sections rounds
    rw [map_bind]
    refine bind_congr fun ended => ?_
    cases ended with
    | true => simp
    | false => simp [ih]

/-- A module before its functions have been put together. -/
def draft : Decoder Draft := do
  header
  let d ← fun c => sections 0 {} c.rest.length c
  require (d.declared.length = d.bodies.length) .bodyCount
  match d.invalidIndex? with
  | some cause => fail cause
  | none => pure d

/-- All sections, with the highest id. -/
def sectionRounds : Decoder (UInt8 × Draft) := fun c =>
  rounds (fun s => oneSection s.1 s.2) (0, {}) c.rest.length c

theorem draft_eq : draft = header >>= fun _ => sectionRounds >>= fun s =>
    require (s.2.declared.length = s.2.bodies.length) .bodyCount >>= fun _ =>
      match s.2.invalidIndex? with
      | some cause => fail cause
      | none => pure s.2 := by
  have hsections : (fun c => sections 0 {} c.rest.length c) =
      (Prod.snd <$> sectionRounds : Decoder Draft) := by
    funext c
    rw [sections_eq]
    rfl
  unfold draft
  rw [hsections]
  simp only [bind_map_left]

theorem run?_map {α β : Type} (d : Decoder α) (f : α → β) (input : List UInt8) :
    (f <$> d).run? input = (d.run? input).map f := by
  unfold run?
  cases hd : d ⟨0, input⟩ with
  | error e =>
    rw [map_error hd]
    rfl
  | ok r =>
    rw [map_ok hd]
    rfl

theorem module_eq : Decoder.module = Draft.toModule <$> draft := by
  unfold Decoder.module draft
  simp only [map_bind]
  refine bind_congr fun _ => bind_congr fun d => bind_congr fun _ => ?_
  cases d.invalidIndex? <;> rfl

end Decoder

namespace DebugNames

open Decoder

theorem local_entry : Local 1 entry :=
  local_u32.first fun _ => local_name.weaken.first fun _ => local_pure

theorem local_localEntries : Local 1 localEntries :=
  local_u32.first fun _ => local_entry.vector.weaken.first fun _ => local_pure

theorem windowed_readSubsection (n : DebugNames) (id : UInt8) :
    Windowed (n.readSubsection id) := by
  unfold readSubsection
  split
  · exact (local_name.first fun _ => local_pure).windowed
  · exact (local_entry.vector.first fun _ => local_pure).windowed
  · exact (local_localEntries.vector.first fun _ => local_pure).windowed
  · exact (whole_remainder.bind fun _ => local_pure).windowed

theorem local_subsection (n : DebugNames) : Local 1 n.subsection :=
  local_byte.first fun _ => local_u32.weaken.first fun _ =>
    ((windowed_readSubsection n _).within _ _).weaken

theorem subsections_eq (n : DebugNames) (k : Nat) :
    n.subsections k = rounds DebugNames.subsection n k := by
  induction k generalizing n with
  | zero => rfl
  | succ k ih =>
    unfold subsections rounds
    refine bind_congr fun ended => ?_
    split
    · rfl
    · exact bind_congr fun n => ih n

end DebugNames

namespace Pass

variable {α β σ : Type} {p : Pass α} {q : α → Pass β} {d : Decoder α} {a : α}

/-! ## Sections -/

theorem charged_custom : Charged custom (some <$> Decoder.custom) 0 (-1)
    (fun o => o.toList.length) fun o => o.toList.length - 1 := by
  unfold Decoder.custom
  simp only [map_bind, map_pure]
  refine follows_name.first Decoder.local_name (by decide) fun name =>
    (follows_remainder.charged (by decide)).bind fun payload =>
      Charged.unlessFailed (f := 0) (charged_pure ?_ ?_) ?_ <;> simp

theorem items_foldl_addImport (imports : List Decoder.Import) (d : Draft) :
    (imports.foldl Draft.addImport d).items = d.items + imports.length := by
  induction imports generalizing d with
  | nil => rfl
  | cons i imports ih =>
    have hone : (d.addImport i).items = d.items + 1 := by
      cases i <;> simp only [Draft.addImport, Draft.items, Array.size_push] <;> omega
    rw [List.foldl_cons, ih, hone, List.length_cons]
    omega

/-- Items that go into a draft. -/
theorem charged_draft {p : Pass (List α)} {e : Decoder (List α)} {w : List α → Int} {late : Int}
    {d : Draft} {add : List α → Draft} (h : Charged p e 0 (-late) w fun l => w l - late)
    (hlate : late ≤ 3) (hadd : ∀ l, (add l).items ≤ d.items + w l) :
    Charged (p >>= fun l => pure (add l)) (e >>= fun l => pure (add l)) d.items (d.items - 3)
      (fun d => d.items) fun d => d.items - 3 := by
  refine h.after d.items (d.items - 3 + late) (by omega) (by omega) (by omega) fun l =>
    charged_pure ?_ ?_ <;>
    have := hadd l <;> omega

theorem charged_readSection (d : Draft) (id : UInt8) :
    Charged (readSection d id) (d.readSection id) d.items (d.items - 3)
      (fun d => d.items) fun d => d.items - 3 := by
  unfold readSection
  split <;> simp only [Draft.readSection]
  · have hd : (Decoder.custom >>= fun c =>
          pure { d with customSections := d.customSections ++ [c] }) =
        (some <$> Decoder.custom) >>= fun c? =>
          pure { d with customSections := d.customSections ++ c?.toList } := by
      rw [bind_map_left]
      rfl
    rw [hd]
    refine charged_custom.after d.items (d.items - 2) (by omega) (by omega) (by omega) fun c? =>
      charged_pure ?_ ?_ <;>
      simp only [Draft.items, List.length_append] <;> omega
  · refine charged_draft charged_funcType.vector (by decide) fun l => ?_
    simp only [Draft.items, total]
    omega
  · refine charged_draft ((follows_importEntry _).vector (Decoder.local_importEntry _)) (by decide)
      fun l => ?_
    rw [items_foldl_addImport]
    omega
  · refine charged_draft (((follows_typeIndex _).map some).vector (Decoder.local_typeIndex _))
      (by decide) fun l => ?_
    simp only [Draft.items]
    omega
  · refine charged_draft ((follows_tableLimits.map some).vector Decoder.local_tableLimits)
      (by decide) fun l => ?_
    simp only [Draft.items, Array.size_append, List.size_toArray, List.length_map]
    omega
  · have hmemories := (follows_memoryLimits.map some).vector Decoder.local_memoryLimits
    refine hmemories.after d.items (d.items - 2) (by omega) (by omega) (by omega) fun memories =>
      ((follows_require _ _).charged (by omega)).bind fun _ => charged_pure ?_ ?_ <;>
      simp only [Draft.items, Array.size_append, List.size_toArray, List.length_map] <;> omega
  · refine charged_draft ((follows_globalEntry.map some).vector Decoder.local_globalEntry)
      (by decide) fun l => ?_
    simp only [Draft.items, Array.size_append, List.size_toArray]
    omega
  · refine charged_draft (follows_exportEntry.vector Decoder.local_exportEntry)
      (by decide) fun l => ?_
    simp only [Draft.items]
    omega
  · exact (follows_u32.charged (by omega)).bind fun f =>
      charged_pure (Int.le_refl _) (Int.le_refl _)
  · refine charged_draft charged_elementSegment.vector (by decide) fun l => ?_
    simp only [Draft.items, total]
    omega
  · refine charged_draft (charged_functionBodies _) (by decide) fun l => ?_
    simp only [Draft.items, total]
    omega
  · refine charged_draft charged_dataSegment.vector (by decide) fun l => ?_
    simp only [Draft.items, total]
    omega
  · exact charged_pure (Int.le_refl _) (Int.le_refl _)

theorem charged_oneSection (s : UInt8 × Draft) : Charged (oneSection s)
    (Decoder.oneSection s.1 s.2) s.2.items s.2.items (fun s => s.2.items)
    fun s => s.2.items - 3 := by
  have hd : ∀ id size, (Decoder.within size .sectionSize (s.2.readSection id) >>= fun d =>
      pure (if id = 0 then s.1 else id, d)) =
      (some <$> Decoder.within size .sectionSize (s.2.readSection id)) >>= fun d? =>
        pure (if id = 0 then s.1 else id, d?.getD s.2) := by
    intro id size
    rw [bind_map_left]
    rfl
  refine (follows_byte.charged (Int.le_refl _)).bind fun id =>
    (follows_u32.charged (Int.le_refl _)).bind fun size =>
      ((follows_require _ _).charged (Int.le_refl _)).bind fun _ =>
        ((follows_require _ _).charged (Int.le_refl _)).bind fun _ => ?_
  show Charged _ (Decoder.within _ _ _ >>= _) _ _ _ _
  rw [hd]
  refine Charged.unlessFailed (f := s.2.items) (Charged.bind (w := fun d? => (d?.getD s.2).items)
    (v := fun d? => (d?.getD s.2).items - 3) ?_ fun d? => ?_) (by omega)
  · exact (charged_readSection s.2 id).within (fun _ => Int.le_refl _) (fun _ => by simp)
      (fun _ => Int.le_refl _) (by simp) (by simp)
  · exact charged_pure (Int.le_refl _) (Int.le_refl _)

theorem charged_module : Charged draft Decoder.draft 0 (-3) (fun d => d.items)
    fun d => d.items - 3 := by
  rw [Decoder.draft_eq]
  have hsections :=
    Charged.toLimit charged_oneSection (fun _ => Decoder.local_oneSection _ _) (0, {})
  refine (follows_header.charged (by decide)).bind fun _ => hsections.bind fun s =>
    ((follows_require _ _).charged (by omega)).bind fun _ => ?_
  cases s.2.invalidIndex? with
  | some cause => exact charged_giveUp (by omega) (Int.le_refl _)
  | none => exact charged_pure (Int.le_refl _) (Int.le_refl _)

/-! ## Names -/

theorem charged_localEntries : Charged localEntries DebugNames.localEntries 0 (-1)
    (fun l => l.length) fun l => l.length - 1 := by
  have hentries := (follows_entry.map some).vector DebugNames.local_entry
  refine (follows_u32.charged (by decide)).bind fun f => hentries.bind fun entries =>
    charged_pure ?_ ?_ <;> simp

theorem charged_localGroups : Charged (vector (some <$> localEntries))
    (Decoder.vector DebugNames.localEntries) 0 (-1) (fun l => l.flatten.length)
    fun l => l.flatten.length - 1 := by
  have hitem : Charged (some <$> localEntries) (some <$> DebugNames.localEntries) 0 (-1)
      (fun o => total List.length o.toList) fun o => total List.length o.toList - (1 : Nat) :=
    charged_localEntries.map (by simp) (by simp)
  refine hitem.vector.adapt 0 0 (Int.le_refl 0) (by decide) (by decide) ?_ ?_ <;>
    simp [total, List.length_flatten]

theorem charged_readSubsection (n : DebugNames) (id : UInt8) :
    Charged (readSubsection n id) (n.readSubsection id) n.items n.items
      (fun n => n.items) fun n => n.items - 1 := by
  unfold readSubsection DebugNames.readSubsection
  by_cases h0 : id = 0
  · subst h0
    refine follows_name.first Decoder.local_name (Int.le_refl _) fun name =>
      charged_pure ?_ ?_ <;>
      simp [DebugNames.items] <;> omega
  by_cases h1 : id = 1
  · subst h1
    have hentries := (follows_entry.map some).vector DebugNames.local_entry
    refine hentries.after n.items n.items (Int.le_refl _) (by omega) (by omega) fun entries =>
      charged_pure ?_ ?_ <;>
      simp [DebugNames.items] <;> omega
  by_cases h2 : id = 2
  · subst h2
    refine charged_localGroups.after n.items n.items (Int.le_refl _) (by omega) (by omega)
      fun entries => charged_pure ?_ ?_ <;>
      simp [DebugNames.items] <;> omega
  · simp only
    exact (follows_remainder.charged (Int.le_refl _)).bind fun _ =>
      charged_pure (Int.le_refl _) (by omega)

theorem charged_subsection (n : DebugNames) : Charged (subsection n) n.subsection n.items n.items
    (fun n => n.items) fun n => n.items - 1 := by
  have hd : n.subsection = Decoder.byte >>= fun id => Decoder.u32 >>= fun size =>
      (some <$> Decoder.within size.toNat .nameSubsectionSize (n.readSubsection id)) >>= fun n? =>
        pure (n?.getD n) := by
    unfold DebugNames.subsection
    simp only [bind_map_left, Option.getD_some, bind_pure]
  rw [hd]
  refine (follows_byte.charged (Int.le_refl _)).bind fun id =>
    (follows_u32.charged (Int.le_refl _)).bind fun size =>
      Charged.bind (w := fun n? => (n?.getD n).items) (v := fun n? => (n?.getD n).items - 1) ?_
        fun n? => charged_pure (Int.le_refl _) (Int.le_refl _)
  exact (charged_readSubsection n id).within (fun _ => Int.le_refl _) (fun _ => by simp)
    (fun _ => Int.le_refl _) (by simp) (by simp)

theorem charged_names : Charged names (fun c => DebugNames.subsections {} c.rest.length c) 0 (-1)
    (fun n => n.items) fun n => n.items - 1 := by
  have hd : (fun c => Decoder.rounds DebugNames.subsection {} c.rest.length c) =
      fun c => DebugNames.subsections {} c.rest.length c := by
    funext c
    rw [DebugNames.subsections_eq]
  have h := Charged.toLimit charged_subsection DebugNames.local_subsection {}
  rwa [hd] at h

/-! ## Inputs -/

/-- **What a pass comes to on an input.** It ends as the decoder does, and its value is paid for
with the bytes of the input. -/
theorem Charged.run {w : α → Int} {f late : Int} (h : Charged p d 0 f w fun a => w a - late)
    (hlate : 0 ≤ late) (input : List UInt8) : ∃ a t, p.run? input = some (a, t) ∧ t.Sound input ∧
      d.run? input = t.result a ∧ w a ≤ input.length + late := by
  obtain ⟨a, t, hp, ht, ho⟩ := h input _ (Trace.sound_start input)
  have hlimit := ht.reader.limit_le
  have hposition := ht.reader.position_le
  have hcursor : (Reader.ofBytes input).cursor = ⟨0, input⟩ :=
    congrArg (Cursor.mk 0) (List.take_length)
  have hzero : (Reader.ofBytes input).position = 0 := rfl
  refine ⟨a, t, hp, ht, ?_⟩
  unfold Decoder.run? Trace.result
  cases ho with
  | rested hfailed => cases hfailed
  | read hok hd hreader hpaid =>
    have hnone : t.reader.error = none := by rw [hreader]; rfl
    rw [hcursor] at hd
    rw [hd, hnone]
    exact ⟨rfl, by omega⟩
  | stopped hok hd herror hlimit hpaid =>
    rw [hcursor] at hd
    rw [hd, herror]
    exact ⟨rfl, by omega⟩

/-! ### Locals -/

/-- Whatever the pass comes to has the property, an error or not. -/
def Gives {α : Type} (p : Pass α) (P : α → Prop) : Prop := ∀ t a t', p t = some (a, t') → P a

variable {P : α → Prop} {Q : β → Prop}

theorem gives_pure (h : P a) : Gives (pure a) P := by
  rintro t _ _ ⟨⟩
  exact h

theorem Gives.bind (h : Gives p P) (hq : ∀ a, P a → Gives (q a) Q) : Gives (p >>= q) Q := by
  intro t c t'' hc
  obtain ⟨⟨a, t'⟩, ha, hc⟩ := Option.bind_eq_some_iff.mp (show (p t).bind _ = _ from hc)
  exact hq a (h t a t' ha) t' c t'' hc

theorem gives_of_rest (hq : ∀ a, Gives (q a) Q) : Gives (p >>= q) Q :=
  Gives.bind (P := fun _ => True) (fun _ _ _ _ => trivial) fun a _ => hq a

theorem gives_giveUp {cause : LoadCause} (h : P a) : Gives (giveUp cause a) P :=
  gives_of_rest fun _ => gives_pure h

theorem Gives.unlessFailed (h : Gives p P) (ha : P a) : Gives (unlessFailed a p) P := by
  refine gives_of_rest fun failed => ?_
  split
  · exact gives_pure ha
  · exact h

theorem Gives.times {item : Pass (Option α)} (h : Gives item fun o => ∀ a ∈ o.toList, P a)
    (n : Nat) : Gives (times item n) fun l => ∀ a ∈ l, P a := by
  induction n with
  | zero => exact gives_pure (by simp)
  | succ n ih =>
    refine Gives.unlessFailed (h.bind fun o ho => ih.bind fun rest hrest => gives_pure ?_)
      (by simp)
    intro a ha
    rcases List.mem_append.mp ha with ha | ha
    · exact ho a ha
    · exact hrest a ha

theorem Gives.within (h : Gives p P) (size : Nat) (mismatch : LoadCause) :
    Gives (within size mismatch p) fun o => ∀ a ∈ o.toList, P a := by
  refine gives_of_rest fun outer => Gives.unlessFailed (h.bind fun a ha =>
    gives_of_rest fun _ => gives_pure ?_) (by simp)
  simpa using ha

theorem Gives.rounds {step : σ → Pass σ} {P : σ → Prop} (h : ∀ s, P s → Gives (step s) P)
    {s : σ} (hs : P s) (n : Nat) : Gives (rounds step s n) P := by
  induction n generalizing s with
  | zero =>
    intro t a t' h
    have hnone : none = some (a, t') := h
    cases hnone
  | succ n ih =>
    refine Gives.unlessFailed (gives_of_rest fun ended => ?_) hs
    split
    · exact gives_pure hs
    · exact (h s hs).bind fun s' hs' => ih hs'

theorem gives_localGroups (room groups : Nat) :
    Gives (localGroups room groups) fun l => l.length ≤ room := by
  induction groups generalizing room with
  | zero => exact gives_pure (Nat.zero_le _)
  | succ groups ih =>
    refine Gives.unlessFailed (gives_of_rest fun n => ?_) (Nat.zero_le _)
    split
    · rename_i hn
      refine gives_of_rest fun t => (ih _).bind fun rest hrest => gives_pure ?_
      rw [List.length_append, List.length_replicate]
      omega
    · exact gives_giveUp (Nat.zero_le _)

theorem gives_body : Gives body fun b => b.locals.length ≤ maxLocals := by
  refine gives_of_rest fun groups => (gives_localGroups maxLocals groups).bind fun locals hl =>
    gives_of_rest fun code => gives_of_rest fun _ => Gives.unlessFailed ?_ hl
  split
  · exact gives_pure hl
  · exact gives_giveUp hl

theorem gives_functionBodies (declared : Nat) : Gives (functionBodies declared) fun l =>
    ∀ b ∈ l, b.locals.length ≤ maxLocals :=
  gives_of_rest fun _ => gives_of_rest fun _ =>
    Gives.times (gives_of_rest fun _ => gives_body.within _ _) _

/-- The locals of every body that has been read. -/
def FewLocals (d : Draft) : Prop := ∀ b ∈ d.bodies, b.locals.length ≤ maxLocals

theorem gives_readSection {d : Draft} (h : FewLocals d) (id : UInt8) :
    Gives (readSection d id) FewLocals := by
  unfold readSection
  split
  · exact gives_of_rest fun _ => gives_pure h
  · exact gives_of_rest fun _ => gives_pure h
  · refine gives_of_rest fun imports => gives_pure ?_
    unfold FewLocals
    rw [Draft.bodies_foldl_addImport]
    exact h
  · exact gives_of_rest fun _ => gives_pure h
  · exact gives_of_rest fun _ => gives_pure h
  · exact gives_of_rest fun _ => gives_of_rest fun _ => gives_pure h
  · exact gives_of_rest fun _ => gives_pure h
  · exact gives_of_rest fun _ => gives_pure h
  · exact gives_of_rest fun _ => gives_pure h
  · exact gives_of_rest fun _ => gives_pure h
  · exact (gives_functionBodies _).bind fun bodies hbodies => gives_pure hbodies
  · exact gives_of_rest fun _ => gives_pure h
  · exact gives_pure h

theorem gives_oneSection (s : UInt8 × Draft) (h : FewLocals s.2) :
    Gives (oneSection s) fun s => FewLocals s.2 := by
  refine gives_of_rest fun id => gives_of_rest fun size => gives_of_rest fun _ =>
    gives_of_rest fun _ => Gives.unlessFailed ?_ h
  refine ((gives_readSection h id).within _ _).bind fun d? hd => gives_pure ?_
  cases d? with
  | none => exact h
  | some d => exact hd d (by simp)

theorem gives_draft : Gives draft FewLocals := by
  have hloop : Gives (toLimit oneSection (0, {})) fun s => FewLocals s.2 :=
    gives_of_rest fun left => Gives.rounds gives_oneSection (by simp [FewLocals]) _
  refine gives_of_rest fun _ => hloop.bind fun s hs => gives_of_rest fun _ => ?_
  cases s.2.invalidIndex? with
  | none => exact gives_pure hs
  | some cause => exact gives_giveUp hs

end Pass

/-- **What is read of malformed bytes is bounded by them.** The pass over a module has a value on
every input, which means that all of its loops end. On the way there the reader stands inside its
limit and the limit inside the input, it never goes back, and behind its first error it neither
moves nor changes the error. The pass gives the module or stops with the error that loading the
input has, and what it has gathered by then, the item that failed included, is at most a fixed
multiple of the length of the input, with no more than 50000 locals to a function. So it is of a
section for names. -/
theorem reading_bounded :
    (∀ input : List UInt8, ∃ d t, Pass.draft.run? input = some (d, t) ∧ t.Sound input ∧
      Module.ofBytes? input = t.result d.toModule ∧ d.items ≤ 3 * (input.length + 1) ∧
      ∀ b ∈ d.bodies, b.locals.length ≤ 50000) ∧
    ∀ payload : List UInt8, ∃ n t, Pass.names.run? payload = some (n, t) ∧ t.Sound payload ∧
      DebugNames.ofPayload? payload = t.result n ∧ n.items ≤ 3 * (payload.length + 1) := by
  refine ⟨fun input => ?_, fun payload => ?_⟩
  · obtain ⟨d, t, hrun, ht, hresult, hpaid⟩ := Pass.charged_module.run (by decide) input
    refine ⟨d, t, hrun, ht, ?_, by omega, Pass.gives_draft _ d t hrun⟩
    unfold Module.ofBytes?
    rw [Decoder.module_eq, Decoder.run?_map, hresult, Trace.map_result]
  · obtain ⟨n, t, hrun, ht, hresult, hpaid⟩ := Pass.charged_names.run (by decide) payload
    exact ⟨n, t, hrun, ht, hresult, by omega⟩

end WasmDebugger
