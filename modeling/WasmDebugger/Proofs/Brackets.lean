import WasmDebugger.Proofs.Nesting

/-!
# Well-bracketed bodies

The grammar of function bodies, and `Nesting.resolve` as its recognizer.

* `Balanced`: sequences in which every opener has its `end` and every `else` stands in an `if`
  that has no other. `WellBracketed` adds the `end` that closes the body.
* `Pending openers`: what has to come when the openers wait for their `end`. It is what a
  successful `scan` says of the rest, and a balanced sequence leaves it as it is.
* `wellBracketed_of_resolve`: `resolve` succeeds on well-bracketed bodies alone. It leaves no opener
  and no `else` without an `end` (`endsNamed_of_resolve`).
* **`resolve_isOk_iff`**: given no arms, it succeeds on all of them.
* **`resolve_of_resolved`**: a resolved body is found again from its instructions without targets.
-/

namespace WasmDebugger

/-- The instruction without targets. -/
def Instr.bare (i : Instr) : Instr := i.withTargets {}

theorem Instr.bare_withTargets (t : Targets) (i : Instr) : (i.withTargets t).bare = i.bare := by
  cases i <;> rfl

theorem Instr.bracket_bare (i : Instr) : i.bare.bracket = i.bracket := i.bracket_withTargets {}

/-- Only instructions with targets change when these are taken away. -/
theorem Instr.eq_of_bare {i j : Instr} (h : j.bare = i.bare) :
    (∃ r t t', i = .block r t ∧ j = .block r t') ∨ (∃ r t t', i = .loop r t ∧ j = .loop r t') ∨
      (∃ r t t' arm arm', i = .ifThen r t arm ∧ j = .ifThen r t' arm') ∨
      (∃ t t', i = .elseThen t ∧ j = .elseThen t') ∨ i = j := by
  cases i <;> cases j <;> simp_all [Instr.bare, Instr.withTargets]

namespace Nesting

/-! ## The grammar -/

/-- Sequences of instructions in which all blocks are closed. -/
inductive Balanced : List Instr → Prop where
  | nil : Balanced []
  | plain {i : Instr} {rest : List Instr} (hi : i.bracket = .plain) (hrest : Balanced rest) :
      Balanced (i :: rest)
  | block (r : Option ValueType) (t : Option Nat) {body rest : List Instr}
      (hbody : Balanced body) (hrest : Balanced rest) :
      Balanced (.block r t :: (body ++ .blockEnd :: rest))
  | loop (r : Option ValueType) (t : Option Nat) {body rest : List Instr}
      (hbody : Balanced body) (hrest : Balanced rest) :
      Balanced (.loop r t :: (body ++ .blockEnd :: rest))
  | ifThen (r : Option ValueType) (t arm : Option Nat) {body rest : List Instr}
      (hbody : Balanced body) (hrest : Balanced rest) :
      Balanced (.ifThen r t arm :: (body ++ .blockEnd :: rest))
  | ifElse (r : Option ValueType) (t arm t' : Option Nat) {yes no rest : List Instr}
      (hyes : Balanced yes) (hno : Balanced no) (hrest : Balanced rest) :
      Balanced (.ifThen r t arm :: (yes ++ .elseThen t' :: (no ++ .blockEnd :: rest)))

/-- A balanced sequence and the `end` of the body. -/
def WellBracketed (code : List Instr) : Prop :=
  ∃ items, Balanced items ∧ code = items ++ [.blockEnd]

/-- What closes the waiting openers, innermost first, and is balanced in between. -/
def Pending : List Opener → List Instr → Prop
  | [], rest => Balanced rest
  | w :: outer, rest =>
    (∃ items after, Balanced items ∧ Pending outer after ∧ rest = items ++ .blockEnd :: after) ∨
      (w.isIf = true ∧ w.elseAt = none ∧ ∃ yes t no after, Balanced yes ∧ Balanced no ∧
        Pending outer after ∧ rest = yes ++ .elseThen t :: (no ++ .blockEnd :: after))

variable {items rest code resolved : List Instr} {openers outer : List Opener} {pc : Nat}
  {found found' : Array Targets} {w : Opener} {e : NestingError}

/-- Whatever may stand in front of a balanced sequence may stand in front of a pending one. -/
theorem Pending.prepend (h : Pending openers rest) (front : List Instr)
    (hf : ∀ rest, Balanced rest → Balanced (front ++ rest)) : Pending openers (front ++ rest) := by
  cases openers with
  | nil => exact hf rest h
  | cons w outer =>
    rcases h with ⟨items, after, hi, ha, rfl⟩ | ⟨hif, hnone, yes, t, no, after, hy, hn, ha, rfl⟩
    · exact Or.inl ⟨front ++ items, after, hf items hi, ha, (List.append_assoc ..).symm⟩
    · exact Or.inr ⟨hif, hnone, front ++ yes, t, no, after, hf yes hy, hn, ha,
        (List.append_assoc ..).symm⟩

/-- A block whose body is closed at once leaves what was pending around it. -/
theorem Pending.block {i : Instr} (hf : ∀ body rest, Balanced body → Balanced rest →
      Balanced (i :: (body ++ .blockEnd :: rest)))
    (hi : Balanced items) (h : Pending openers rest) :
    Pending openers (i :: (items ++ .blockEnd :: rest)) := by
  have hp := h.prepend (i :: (items ++ [.blockEnd])) fun rest hr => by
    simpa using hf items rest hi hr
  simpa using hp

/-! ## What `scan` accepts -/

theorem scan_plain {i : Instr} (h : i.bracket = .plain) (pc : Nat) (openers : List Opener)
    (found : Array Targets) (rest : List Instr) :
    scan pc openers found (i :: rest) = scan (pc + 1) openers found rest := by
  cases i <;> first | rfl | exact absurd h (by simp [Instr.bracket])

/-- **A successful walk leaves a pending rest.** -/
theorem pending_of_scan (h : scan pc openers found rest = .ok found') : Pending openers rest := by
  induction rest generalizing pc openers found with
  | nil =>
    unfold scan at h
    split at h
    · exact Balanced.nil
    · exact absurd h (by simp)
  | cons i rest ih =>
    cases i with
    | block r t =>
      rcases ih h with ⟨body, after, hb, ha, rfl⟩ | ⟨hif, -⟩
      · exact ha.block (fun _ _ => Balanced.block r t) hb
      · exact absurd hif (by simp)
    | loop r t =>
      rcases ih h with ⟨body, after, hb, ha, rfl⟩ | ⟨hif, -⟩
      · exact ha.block (fun _ _ => Balanced.loop r t) hb
      · exact absurd hif (by simp)
    | ifThen r t arm =>
      rcases ih h with ⟨body, after, hb, ha, rfl⟩ | ⟨-, -, yes, t', no, after, hy, hn, ha, rfl⟩
      · exact ha.block (fun _ _ => Balanced.ifThen r t arm) hb
      · have hp := ha.prepend (.ifThen r t arm :: (yes ++ .elseThen t' :: (no ++ [.blockEnd])))
          fun rest hr => by simpa using Balanced.ifElse r t arm t' hy hn hr
        simpa using hp
    | elseThen t =>
      simp only [scan] at h
      split at h
      · exact absurd h (by simp)
      · exact absurd h (by simp)
      · exact absurd h (by simp)
      · -- the opener has its arm now, so only an `end` is left for it
        rcases ih h with ⟨no, after, hn, ha, rfl⟩ | ⟨-, hnone, -⟩
        · exact Or.inr ⟨rfl, rfl, [], t, no, after, Balanced.nil, hn, ha, rfl⟩
        · exact absurd hnone (by simp)
    | blockEnd =>
      simp only [scan] at h
      split at h
      · exact absurd h (by simp)
      · exact Or.inl ⟨[], rest, Balanced.nil, ih h, rfl⟩
    | _ => exact (ih h).prepend [_] fun rest hr => Balanced.plain rfl hr

/-- The walk gets over the sequence, and the same openers wait behind it. -/
def Walked (items : List Instr) : Prop :=
  ∀ pc openers found, ∃ found', ∀ rest,
    scan pc openers found (items ++ rest) = scan (pc + items.length) openers found' rest

theorem Walked.block {i : Instr} {isIf : Bool} {body : List Instr}
    (hi : ∀ pc openers found rest,
      scan pc openers found (i :: rest) = scan (pc + 1) (⟨pc, isIf, none⟩ :: openers) found rest)
    (hb : Walked body) (hr : Walked rest) : Walked (i :: (body ++ .blockEnd :: rest)) := by
  intro pc openers found
  obtain ⟨f₁, h₁⟩ := hb (pc + 1) (⟨pc, isIf, none⟩ :: openers) found
  obtain ⟨f₂, h₂⟩ := hr (pc + 1 + body.length + 1) openers
    (close ⟨pc, isIf, none⟩ (pc + 1 + body.length) f₁)
  refine ⟨f₂, fun after => ?_⟩
  rw [List.cons_append, List.append_assoc, List.cons_append, hi, h₁, scan, h₂]
  congr 1
  simp only [List.length_cons, List.length_append]
  omega

theorem Unarmed.of_block {i : Instr} {body : List Instr}
    (h : Unarmed (i :: (body ++ .blockEnd :: rest))) : Unarmed body ∧ Unarmed rest :=
  ⟨h.mono fun _ hj => by simp [hj], h.mono fun _ hj => by simp [hj]⟩

/-- **A balanced sequence is walked over**, if no `if` has an arm before its `else` comes. -/
theorem Balanced.walked (h : Balanced items) (hu : Unarmed items) : Walked items := by
  induction h with
  | nil => exact fun pc openers found => ⟨found, fun rest => rfl⟩
  | plain hi _ ih =>
    intro pc openers found
    obtain ⟨found', h⟩ := ih (hu.mono (List.subset_cons_self _ _)) (pc + 1) openers found
    refine ⟨found', fun rest => ?_⟩
    rw [List.cons_append, scan_plain hi, h, List.length_cons]
    congr 1
    omega
  | block _ _ _ _ ihb ihr | loop _ _ _ _ ihb ihr =>
    obtain ⟨hbody, hrest⟩ := hu.of_block
    exact (ihb hbody).block (fun _ _ _ _ => rfl) (ihr hrest)
  | ifThen _ _ _ _ _ ihb ihr =>
    obtain ⟨hbody, hrest⟩ := hu.of_block
    cases hu.eq_none
    exact (ihb hbody).block (fun _ _ _ _ => rfl) (ihr hrest)
  | @ifElse _ _ _ _ yes no rest _ _ _ ihy ihn ihr =>
    intro pc openers found
    cases hu.eq_none
    obtain ⟨f₁, h₁⟩ := ihy (hu.mono fun _ hj => by simp [hj]) (pc + 1)
      (⟨pc, true, none⟩ :: openers) found
    obtain ⟨f₂, h₂⟩ := ihn (hu.mono fun _ hj => by simp [hj]) (pc + 1 + yes.length + 1)
      (⟨pc, true, some (pc + 1 + yes.length)⟩ :: openers) f₁
    obtain ⟨f₃, h₃⟩ := ihr (hu.mono fun _ hj => by simp [hj])
      (pc + 1 + yes.length + 1 + no.length + 1) openers
      (close ⟨pc, true, some (pc + 1 + yes.length)⟩ (pc + 1 + yes.length + 1 + no.length) f₂)
    refine ⟨f₃, fun after => ?_⟩
    rw [List.cons_append, List.append_assoc, List.cons_append, List.append_assoc,
      List.cons_append, scan, h₁, scan, h₂, scan, h₃]
    congr 1
    simp only [List.length_cons, List.length_append]
    omega

/-- From no openers on, `scan` succeeds on the balanced sequences. -/
theorem scan_isOk_iff (hu : Unarmed items) (found : Array Targets) :
    (∃ found', scan 0 [] found items = .ok found') ↔ Balanced items := by
  constructor
  · rintro ⟨found', h⟩
    exact pending_of_scan h
  · intro h
    obtain ⟨found', hf⟩ := h.walked hu 0 [] found
    have hend := hf []
    rw [List.append_nil] at hend
    exact ⟨found', hend⟩

/-! ## What `resolve` accepts -/

theorem resolve_concat (items : List Instr) :
    resolve (items ++ [.blockEnd]) =
      (scan 0 [] ((items ++ [Instr.blockEnd]).map targetsOf).toArray items).map
        (withTargets (items ++ [.blockEnd])) := by
  unfold resolve
  simp only [List.getLast?_concat, List.dropLast_concat]
  cases scan 0 [] ((items ++ [Instr.blockEnd]).map targetsOf).toArray items <;> rfl

theorem resolve_of_last_ne {last : Instr} (h : last ≠ .blockEnd) (items : List Instr) :
    resolve (items ++ [last]) = .error .noFinalEnd := by
  unfold resolve
  rw [List.getLast?_concat]
  split
  · rename_i he
    exact absurd (Option.some.inj he) h
  · rfl

/-- What `resolve` has found when it succeeds. -/
theorem exists_scan_of_resolve (h : resolve code = .ok resolved) :
    ∃ items found, code = items ++ [.blockEnd] ∧
      scan 0 [] (code.map targetsOf).toArray items = .ok found ∧
        resolved = withTargets code found := by
  rcases code.eq_nil_or_concat with rfl | ⟨items, last, rfl⟩
  · exact absurd h (by simp [resolve])
  rw [List.concat_eq_append] at h ⊢
  by_cases hlast : last = .blockEnd
  · subst hlast
    rw [resolve_concat] at h
    cases hs : scan 0 [] ((items ++ [Instr.blockEnd]).map targetsOf).toArray items with
    | error e =>
      rw [hs] at h
      exact absurd h (by simp [Except.map])
    | ok found =>
      rw [hs] at h
      exact ⟨items, found, rfl, hs, (Except.ok.inj h).symm⟩
  · rw [resolve_of_last_ne hlast] at h
    exact absurd h (by simp)

/-- **`resolve` succeeds on well-bracketed bodies alone**, whatever targets they have already. -/
theorem wellBracketed_of_resolve (h : resolve code = .ok resolved) : WellBracketed code := by
  obtain ⟨items, found, hcode, hs, -⟩ := exists_scan_of_resolve h
  exact ⟨items, pending_of_scan hs, hcode⟩

/-- **Given no arms, `resolve` succeeds on the well-bracketed bodies and on no others.** -/
theorem resolve_isOk_iff (hu : Unarmed code) :
    (∃ resolved, resolve code = .ok resolved) ↔ WellBracketed code := by
  constructor
  · rintro ⟨resolved, h⟩
    exact wellBracketed_of_resolve h
  · rintro ⟨items, hb, rfl⟩
    obtain ⟨found, hs⟩ := (scan_isOk_iff (hu.mono (List.subset_append_left _ _)) _).mpr hb
    exact ⟨_, by rw [resolve_concat, hs]; rfl⟩

-- a body that has been resolved before has its arms, so its `else` comes as a second one
example : resolve [.ifThen none (some 2) (some 1), .elseThen (some 2), .blockEnd, .blockEnd] =
    .error (.duplicateElse 1) := rfl

/-! ## Ends

What an instruction names as its `end` may be wrong where arms were given. It names one in any case.
-/

/-- The targets at a position name an `end`. -/
def Ended (found : Array Targets) (p : Nat) : Prop := ∀ t, found[p]? = some t → t.endAt.isSome

/-- Closing an opener settles its position and its arm and leaves all else as it is. -/
theorem close_cases {q : Nat} {t : Targets} (h : (close w pc found)[q]? = some t) :
    t.endAt = some pc ∨
      (found[q]? = some t ∧ q ≠ w.position ∧ w.elseAt ≠ some q) := by
  have hlt : q < found.size := by
    rw [← size_close w pc found]
    exact (Array.getElem?_eq_some_iff.mp h).1
  by_cases harm : w.elseAt = some q
  · obtain ⟨t', ht, hend⟩ : ∃ t', (close w pc found)[q]? = some t' ∧ t'.endAt = some pc :=
      close_arm harm hlt
    rw [h] at ht
    cases ht
    exact Or.inl hend
  by_cases hpos : q = w.position
  · subst hpos
    rw [close_position hlt harm] at h
    cases h
    exact Or.inl rfl
  · rw [close_other hpos harm] at h
    exact Or.inr ⟨h, hpos, harm⟩

theorem Ended.close {q : Nat} (h : Ended found q) (w : Opener) (pc : Nat) :
    Ended (close w pc found) q := by
  intro t ht
  rcases close_cases ht with hend | ⟨hold, -⟩
  · rw [hend]
    rfl
  · exact h t hold

/-- The opener and the arm that it has name an `end`. -/
structure Settles (found : Array Targets) (w : Opener) : Prop where
  opener : Ended found w.position
  arm : ∀ a, w.elseAt = some a → Ended found a

theorem settles_close (w : Opener) (pc : Nat) (found : Array Targets) :
    Settles (close w pc found) w where
  opener t ht := by
    rcases close_cases ht with hend | ⟨-, hpos, -⟩
    · rw [hend]
      rfl
    · exact absurd rfl hpos
  arm a ha t ht := by
    rcases close_cases ht with hend | ⟨-, -, harm⟩
    · rw [hend]
      rfl
    · exact absurd ha harm

/-- What a walk over the rest of a body has found in the end. -/
structure Ends (pc : Nat) (openers : List Opener) (found : Array Targets) (rest : List Instr)
    (found' : Array Targets) : Prop where
  size : found'.size = found.size
  kept : ∀ q, Ended found q → Ended found' q
  openers : ∀ w ∈ openers, Settles found' w
  items : ∀ (k : Nat) i, rest[k]? = some i → i.bracket = .opens ∨ i.bracket = .parts →
    Ended found' (pc + k)

/-- One instruction more in front. -/
theorem Ends.cons {i : Instr} {openers' : List Opener} {between : Array Targets}
    (h : Ends (pc + 1) openers' between rest found') (hsize : between.size = found.size)
    (hkept : ∀ q, Ended found q → Ended between q)
    (hopeners : ∀ w ∈ openers, w ∈ openers' ∨ Settles found' w)
    (hi : i.bracket = .opens ∨ i.bracket = .parts → Ended found' pc) :
    Ends pc openers found (i :: rest) found' where
  size := h.size.trans hsize
  kept q hq := h.kept q (hkept q hq)
  openers w hw := (hopeners w hw).elim (h.openers w) id
  items k j hj hb := by
    cases k with
    | zero =>
      cases hj
      exact hi hb
    | succ k =>
      rw [← Nat.succ_add_eq_add_succ]
      exact h.items k j hj hb

/-- **A successful walk settles every opener and every `else` on its way.** -/
theorem scan_ends (h : scan pc openers found rest = .ok found') :
    Ends pc openers found rest found' := by
  induction rest generalizing pc openers found with
  | nil =>
    unfold scan at h
    split at h
    · cases h
      exact ⟨rfl, fun _ => id, by simp, by simp⟩
    · cases h
  | cons i rest ih =>
    cases i with
    | block _ _ | loop _ _ | ifThen _ _ _ =>
      have hends := ih h
      exact hends.cons rfl (fun _ => id) (fun w hw => Or.inl (List.mem_cons_of_mem _ hw))
        fun _ => (hends.openers _ List.mem_cons_self).opener
    | elseThen t =>
      simp only [scan] at h
      split at h
      · cases h
      · cases h
      · cases h
      · have hends := ih h
        obtain ⟨hopener, harm⟩ := hends.openers _ List.mem_cons_self
        refine hends.cons rfl (fun _ => id) (List.forall_mem_cons.mpr ⟨Or.inr ⟨hopener, by simp⟩,
          fun w hw => Or.inl (List.mem_cons_of_mem _ hw)⟩) fun _ => harm pc rfl
    | blockEnd =>
      simp only [scan] at h
      split at h
      · cases h
      · rename_i w outer
        have hends := ih h
        have hw := settles_close w pc found
        refine hends.cons (size_close w pc found) (fun _ hq => hq.close w pc)
          (List.forall_mem_cons.mpr ⟨Or.inr ⟨hends.kept _ hw.opener,
            fun a ha => hends.kept a (hw.arm a ha)⟩, fun _ => Or.inl⟩) (by simp [Instr.bracket])
    | _ => exact (ih h).cons rfl (fun _ => id) (fun _ => Or.inl) (by simp [Instr.bracket])

theorem endAt_withTargets {i : Instr} (hb : i.bracket = .opens ∨ i.bracket = .parts)
    (t : Targets) : (targetsOf (i.withTargets t)).endAt = t.endAt := by
  cases i <;> first | rfl | simp [Instr.bracket] at hb

/-- Every opener and every `else` names an `end`. -/
def EndsNamed (code : List Instr) : Prop :=
  ∀ i ∈ code, i.bracket = .opens ∨ i.bracket = .parts → ∃ e, (targetsOf i).endAt = some e

/-- **In a body that `resolve` returns, every opener and every `else` names an `end`.** -/
theorem endsNamed_of_resolve (h : resolve code = .ok resolved) : EndsNamed resolved := by
  intro i hi hb
  obtain ⟨items, found, rfl, hs, rfl⟩ := exists_scan_of_resolve h
  have hends := scan_ends hs
  obtain ⟨p, hp⟩ := List.getElem?_of_mem hi
  rw [withTargets, List.getElem?_mapIdx, Option.map_eq_some_iff] at hp
  obtain ⟨j, hj, rfl⟩ := hp
  rw [Instr.bracket_withTargets] at hb
  rw [endAt_withTargets hb]
  have hlt : p < (items ++ [Instr.blockEnd]).length := (List.getElem?_eq_some_iff.mp hj).1
  have hfound : p < found.size := by
    rw [hends.size]
    simpa using hlt
  have hended : Ended found p := by
    rcases Nat.lt_or_ge p items.length with hp | hp
    · rw [List.getElem?_append_left hp] at hj
      have := hends.items p j hj hb
      rwa [Nat.zero_add] at this
    · -- what closes the body is no opener
      rw [List.getElem?_append_right hp] at hj
      rw [List.mem_singleton.mp (List.mem_of_getElem? hj)] at hb
      simp [Instr.bracket] at hb
  rw [Array.getD_eq_getD_getElem?, Array.getElem?_eq_getElem hfound]
  exact Option.isSome_iff_exists.mp (hended _ (Array.getElem?_eq_getElem hfound))

/-! ## Bodies without targets -/

theorem map_bare_withTargets (code : List Instr) (found : Array Targets) :
    (withTargets code found).map Instr.bare = code.map Instr.bare := by
  refine List.ext_getElem? fun p => ?_
  simp only [withTargets, List.getElem?_map, List.getElem?_mapIdx, Option.map_map]
  cases code[p]? with
  | none => rfl
  | some i => exact congrArg some (Instr.bare_withTargets _ i)

theorem map_bare_of_resolve (h : resolve code = .ok resolved) :
    resolved.map Instr.bare = code.map Instr.bare := by
  obtain ⟨items, found, -, -, rfl⟩ := exists_scan_of_resolve h
  exact map_bare_withTargets code found

theorem map_bare (h : ∀ i ∈ items, i.bare = i) : items.map Instr.bare = items := by
  conv_rhs => rw [← items.map_id]
  exact List.map_congr_left h

theorem unarmed_map_bare (items : List Instr) : Unarmed (items.map Instr.bare) := by
  intro r t arm hmem
  obtain ⟨i, -, hi⟩ := List.mem_map.mp hmem
  cases i <;> cases hi

theorem unarmed_of_bare (h : ∀ i ∈ items, i.bare = i) : Unarmed items :=
  map_bare h ▸ unarmed_map_bare items

/-- A sequence that begins like a block, apart from its targets. -/
theorem exists_block_of_bare {i : Instr} {body : List Instr}
    (h : code.map Instr.bare = (i :: (body ++ .blockEnd :: rest)).map Instr.bare) :
    ∃ j body' rest', code = j :: (body' ++ .blockEnd :: rest') ∧ j.bare = i.bare ∧
      body'.map Instr.bare = body.map Instr.bare ∧ rest'.map Instr.bare = rest.map Instr.bare := by
  rw [List.map_cons, List.map_append, List.map_cons] at h
  obtain ⟨j, behind, rfl, hj, hbehind⟩ := List.map_eq_cons_iff.mp h
  obtain ⟨body', ended, rfl, hbody, hended⟩ := List.map_eq_append_iff.mp hbehind
  obtain ⟨e, rest', rfl, he, hrest⟩ := List.map_eq_cons_iff.mp hended
  obtain rfl : e = .blockEnd := eq_blockEnd_of_bracket (by rw [← Instr.bracket_bare, he]; rfl)
  exact ⟨j, body', rest', rfl, hj, hbody, hrest⟩

/-- **The grammar does not look at targets.** -/
theorem Balanced.of_bare {items' : List Instr} (h : Balanced items)
    (hbare : items'.map Instr.bare = items.map Instr.bare) : Balanced items' := by
  induction h generalizing items' with
  | nil =>
    rw [List.map_eq_nil_iff.mp hbare]
    exact .nil
  | plain hi _ ih =>
    obtain ⟨j, rest', rfl, hj, hrest⟩ := List.map_eq_cons_iff.mp hbare
    exact .plain (by rw [← Instr.bracket_bare, hj, Instr.bracket_bare, hi]) (ih hrest)
  | block _ _ _ _ ihbody ihrest =>
    obtain ⟨j, _, _, rfl, hj, hbody, hrest⟩ := exists_block_of_bare hbare
    cases j <;> cases hj
    exact .block _ _ (ihbody hbody) (ihrest hrest)
  | loop _ _ _ _ ihbody ihrest =>
    obtain ⟨j, _, _, rfl, hj, hbody, hrest⟩ := exists_block_of_bare hbare
    cases j <;> cases hj
    exact .loop _ _ (ihbody hbody) (ihrest hrest)
  | ifThen _ _ _ _ _ ihbody ihrest =>
    obtain ⟨j, _, _, rfl, hj, hbody, hrest⟩ := exists_block_of_bare hbare
    cases j <;> cases hj
    exact .ifThen _ _ _ (ihbody hbody) (ihrest hrest)
  | @ifElse r t arm t' yes no rest _ _ _ ihyes ihno ihrest =>
    rw [show yes ++ Instr.elseThen t' :: (no ++ .blockEnd :: rest) =
      (yes ++ .elseThen t' :: no) ++ .blockEnd :: rest by simp] at hbare
    obtain ⟨j, arms, _, rfl, hj, harms, hrest⟩ := exists_block_of_bare hbare
    rw [List.map_append, List.map_cons] at harms
    obtain ⟨yes', parted, rfl, hyes, hparted⟩ := List.map_eq_append_iff.mp harms
    obtain ⟨e, no', rfl, he, hno⟩ := List.map_eq_cons_iff.mp hparted
    cases j <;> cases hj
    cases e <;> cases he
    simpa using Balanced.ifElse _ _ _ _ (ihyes hyes) (ihno hno) (ihrest hrest)

theorem WellBracketed.of_bare (h : WellBracketed code)
    (hbare : resolved.map Instr.bare = code.map Instr.bare) : WellBracketed resolved := by
  obtain ⟨items, hb, rfl⟩ := h
  rw [List.map_append, List.map_singleton] at hbare
  obtain ⟨items', ended, rfl, hitems, hended⟩ := List.map_eq_append_iff.mp hbare
  obtain ⟨e, rfl, he⟩ := List.map_eq_singleton_iff.mp hended
  obtain rfl : e = .blockEnd := eq_blockEnd_of_bracket (by rw [← Instr.bracket_bare, he]; rfl)
  exact ⟨items', hb.of_bare hitems, rfl⟩

/-! ## Resolved bodies are determined by their instructions -/

theorem bracket_eq_of_bare {a b : List Instr} (h : a.map Instr.bare = b.map Instr.bare) (q : Nat) :
    a.toArray[q]?.map Instr.bracket = b.toArray[q]?.map Instr.bracket := by
  have hq := congrArg (fun l : List Instr => l[q]?.map Instr.bracket) h
  simp only [List.getElem?_map, Option.map_map, Function.comp_def, Instr.bracket_bare] at hq
  simpa using hq

/-- An opener is closed at one position only. -/
theorem ClosedAt.unique {code : Array Instr} {o e e' : Nat} (h : ClosedAt code o e)
    (h' : ClosedAt code o e') : e = e' := by
  have apart : ∀ {e e'}, ClosedAt code o e → ClosedAt code o e' → ¬ e < e' := by
    intro e e' h h' hlt
    have hgone : o ∉ openAt code (e + 1) := by
      rw [h.openAt_succ]
      exact fun hm => absurd (lt_of_mem_openAt hm) (Nat.lt_irrefl _)
    have ho : o < e := lt_of_mem_openAt (List.mem_of_mem_head? h.2)
    exact not_mem_openAt_mono hgone (by omega) hlt (List.mem_of_mem_head? h'.2)
  have := apart h h'
  have := apart h' h
  omega

/-- **Resolved bodies that differ in their targets at most are equal.** -/
theorem Resolved.ext_bare {a b : List Instr} (ha : Resolved a.toArray) (hb : Resolved b.toArray)
    (h : a.map Instr.bare = b.map Instr.bare) : a = b := by
  have hbr := bracket_eq_of_bare h
  have same : ∀ {o t t'}, (∃ e, t = some e ∧ ClosedAt a.toArray o e) →
      (∃ e, t' = some e ∧ ClosedAt b.toArray o e) → t = t' := by
    rintro o t t' ⟨e, rfl, hc⟩ ⟨e', rfl, hc'⟩
    rw [(hc.congr hbr).unique hc']
  refine List.ext_getElem? fun p => ?_
  have hp := congrArg (fun l : List Instr => l[p]?) h
  simp only [List.getElem?_map] at hp
  cases hi : a[p]? with
  | none =>
    rw [hi, Option.map_none, eq_comm, Option.map_eq_none_iff] at hp
    rw [hp]
  | some i =>
    rw [hi, Option.map_some, eq_comm, Option.map_eq_some_iff] at hp
    obtain ⟨j, hj, he⟩ := hp
    rw [hj]
    refine congrArg some ?_
    rw [← List.getElem?_toArray] at hi hj
    rcases Instr.eq_of_bare he with ⟨r, t, t', rfl, rfl⟩ | ⟨r, t, t', rfl, rfl⟩ |
      ⟨r, t, t', arm, arm', rfl, rfl⟩ | ⟨t, t', rfl, rfl⟩ | rfl
    · rw [same (ha.block hi) (hb.block hj)]
    · rw [same (ha.loop hi) (hb.loop hj)]
    · have harm : arm = arm' := Option.ext fun q =>
        (((ha.ifThen hi).2 q).trans (armOf_congr hbr)).trans ((hb.ifThen hj).2 q).symm
      rw [same (ha.ifThen hi).1 (hb.ifThen hj).1, harm]
    · obtain ⟨o, e, rfl, ho, hc⟩ := ha.elseThen hi
      obtain ⟨o', e', rfl, ho', hc'⟩ := hb.elseThen hj
      rw [← openAt_congr hbr, ho, Option.some.injEq] at ho'
      subst ho'
      rw [(hc.congr hbr).unique hc']
    · rfl

/-- **A resolved body is found again** from its instructions without targets. -/
theorem resolve_of_resolved (hb : WellBracketed code) (hr : Resolved code.toArray) :
    resolve (code.map Instr.bare) = .ok code := by
  have hu := unarmed_map_bare code
  have hbare : (code.map Instr.bare).map Instr.bare = code.map Instr.bare := by
    rw [List.map_map]
    exact List.map_congr_left fun i _ => Instr.bare_withTargets {} i
  obtain ⟨resolved, h⟩ := (resolve_isOk_iff hu).mpr (hb.of_bare hbare)
  rw [h, (resolved_of_resolve h hu).ext_bare hr ((map_bare_of_resolve h).trans hbare)]

end Nesting

end WasmDebugger
