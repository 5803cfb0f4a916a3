import Mathlib.Tactic.ByContra
import WasmDebugger.Nesting

/-!
# Block nesting, statically

Which blocks are open in front of a position of a body, and what `Nesting.resolve` finds out about
it.

* `openAt` walks over the instructions before the position; it reads no target.
* `ClosedAt code o e`: the `end` at `e` belongs to the opener at `o`. `ArmOf code o a` says the same
  of an `else`.
* `Resolved`: every target of a body is the one that the nesting asks for, and nothing is open in
  front of the last `end`.
* `resolved_of_resolve`: what `resolve` returns is resolved, unless an `if` was given that names an
  arm beforehand (`Unarmed`). `Walk` is the invariant of `scan`.
-/

namespace WasmDebugger

/-- What an instruction does to the nesting. -/
inductive Bracket where
  | opens
  /-- Stands between the two arms of an `if`. -/
  | parts
  | closes
  | plain
  deriving DecidableEq, Repr

def Instr.bracket : Instr → Bracket
  | .block _ _ | .loop _ _ | .ifThen _ _ _ => .opens
  | .elseThen _ => .parts
  | .blockEnd => .closes
  | _ => .plain

theorem Instr.bracket_withTargets (t : Targets) (i : Instr) :
    (i.withTargets t).bracket = i.bracket := by
  cases i <;> rfl

namespace Nesting

/-- The blocks, loops and ifs that are open in front of a position, innermost first. -/
def openAt (code : Array Instr) : Nat → List Nat
  | 0 => []
  | p + 1 =>
    match code[p]?.map Instr.bracket with
    | some .opens => p :: openAt code p
    | some .closes => (openAt code p).tail
    | _ => openAt code p

/-- The `end` at `e` closes the opener at `o`. -/
def ClosedAt (code : Array Instr) (o e : Nat) : Prop :=
  code[e]? = some .blockEnd ∧ (openAt code e).head? = some o

/-- The `else` at `a` stands directly in the opener at `o`. -/
def ArmOf (code : Array Instr) (o a : Nat) : Prop :=
  code[a]?.map Instr.bracket = some .parts ∧ (openAt code a).head? = some o

variable {code : Array Instr} {p o e a : Nat}

/-! ## One position further -/

theorem openAt_opens (h : code[p]?.map Instr.bracket = some .opens) :
    openAt code (p + 1) = p :: openAt code p := by
  simp only [openAt, h]

theorem openAt_closes (h : code[p]?.map Instr.bracket = some .closes) :
    openAt code (p + 1) = (openAt code p).tail := by
  simp only [openAt, h]

theorem openAt_parts (h : code[p]?.map Instr.bracket = some .parts) :
    openAt code (p + 1) = openAt code p := by
  simp only [openAt, h]

theorem openAt_plain (h : code[p]?.map Instr.bracket = some .plain) :
    openAt code (p + 1) = openAt code p := by
  simp only [openAt, h]

/-- A position opens a block, or closes one, or leaves the nesting as it is. -/
theorem openAt_succ_cases (code : Array Instr) (p : Nat) :
    (code[p]?.map Instr.bracket = some .opens ∧ openAt code (p + 1) = p :: openAt code p) ∨
      (code[p]?.map Instr.bracket = some .closes ∧
        openAt code (p + 1) = (openAt code p).tail) ∨
      openAt code (p + 1) = openAt code p := by
  cases h : code[p]?.map Instr.bracket with
  | none => exact Or.inr (Or.inr (by simp only [openAt, h]))
  | some b =>
    cases b with
    | opens => exact Or.inl ⟨rfl, openAt_opens h⟩
    | parts => exact Or.inr (Or.inr (openAt_parts h))
    | closes => exact Or.inr (Or.inl ⟨rfl, openAt_closes h⟩)
    | plain => exact Or.inr (Or.inr (openAt_plain h))

/-! ## Nested openers -/

/-- What is open at an opener is what is open around it later on. -/
theorem openAt_nested {d : Nat} (h : (openAt code p)[d]? = some o) :
    code[o]?.map Instr.bracket = some .opens ∧ o < p ∧
      openAt code o = (openAt code p).drop (d + 1) := by
  induction p generalizing d with
  | zero => simp [openAt] at h
  | succ p ih =>
    rcases openAt_succ_cases code p with ⟨hb, he⟩ | ⟨-, he⟩ | he
    · rw [he] at h ⊢
      cases d with
      | zero =>
        have : p = o := by simpa using h
        subst this
        exact ⟨hb, Nat.lt_succ_self p, rfl⟩
      | succ d =>
        obtain ⟨h1, h2, h3⟩ := ih (by simpa using h)
        exact ⟨h1, by omega, by simpa using h3⟩
    · rw [he] at h ⊢
      rw [List.getElem?_tail] at h
      obtain ⟨h1, h2, h3⟩ := ih h
      exact ⟨h1, by omega, by rw [h3, List.drop_tail]⟩
    · rw [he] at h ⊢
      obtain ⟨h1, h2, h3⟩ := ih h
      exact ⟨h1, by omega, h3⟩

theorem lt_of_mem_openAt (h : o ∈ openAt code p) : o < p := by
  obtain ⟨d, hd⟩ := List.mem_iff_getElem?.mp h
  exact (openAt_nested hd).2.1

theorem openAt_of_head? (h : (openAt code p).head? = some o) :
    openAt code p = o :: openAt code o := by
  have h0 : (openAt code p)[0]? = some o := by rw [← List.head?_eq_getElem?, h]
  rw [(openAt_nested h0).2.2]
  cases hp : openAt code p with
  | nil => rw [hp] at h; exact absurd h (by simp)
  | cons q rest =>
    rw [hp] at h
    have : q = o := by simpa using h
    simp [this]

theorem ClosedAt.openAt_succ (h : ClosedAt code o e) : openAt code (e + 1) = openAt code o := by
  rw [openAt_closes (by rw [h.1]; rfl), openAt_of_head? h.2, List.tail_cons]

/-- A block that has been closed is not opened again. -/
theorem not_mem_openAt_mono {q : Nat} (h : o ∉ openAt code p) (ho : o < p) (hpq : p ≤ q) :
    o ∉ openAt code q := by
  induction q with
  | zero => simp [openAt]
  | succ q ih =>
    rcases Nat.lt_or_ge q p with hq | hq
    · have : p = q + 1 := by omega
      rwa [← this]
    · have hn := ih hq
      rcases openAt_succ_cases code q with ⟨-, he⟩ | ⟨-, he⟩ | he
      · rw [he, List.mem_cons, not_or]
        exact ⟨by omega, hn⟩
      · rw [he]
        exact fun hm => hn (List.mem_of_mem_tail hm)
      · rwa [he]

/-! ## Resolved bodies -/

/-- The targets in a body are those that its nesting asks for. -/
structure Resolved (code : Array Instr) : Prop where
  final : ∃ last, code.size = last + 1 ∧ code[last]? = some .blockEnd ∧ openAt code last = []
  block : ∀ {o r t}, code[o]? = some (.block r t) → ∃ e, t = some e ∧ ClosedAt code o e
  loop : ∀ {o r t}, code[o]? = some (.loop r t) → ∃ e, t = some e ∧ ClosedAt code o e
  ifThen : ∀ {o r t arm}, code[o]? = some (.ifThen r t arm) →
    (∃ e, t = some e ∧ ClosedAt code o e) ∧ ∀ a, arm = some a ↔ ArmOf code o a
  elseThen : ∀ {a t}, code[a]? = some (.elseThen t) →
    ∃ o e, t = some e ∧ (openAt code a).head? = some o ∧ ClosedAt code o e

/-! ## Given targets -/

/-- No `if` names an arm. Other targets may be there; `resolve` overwrites them. -/
def Unarmed (items : List Instr) : Prop := ∀ r t arm, Instr.ifThen r t (some arm) ∉ items

theorem Unarmed.mono {items front : List Instr} (h : Unarmed items) (hsub : front ⊆ items) :
    Unarmed front :=
  fun r t arm hmem => h r t arm (hsub hmem)

theorem Unarmed.eq_none {r : Option ValueType} {t arm : Option Nat} {rest : List Instr}
    (h : Unarmed (.ifThen r t arm :: rest)) : arm = none :=
  Option.eq_none_iff_forall_not_mem.mpr fun a ha => h r t a (ha ▸ List.mem_cons_self)

/-! ## The walk of `scan` -/

/-- **The invariant of `scan`** in front of position `pc`: the openers that wait are those that are
open there, with the arms seen so far, and everything that has been closed has its targets. -/
structure Walk (code : Array Instr) (pc : Nat) (openers : List Opener) (found : Array Targets) :
    Prop where
  size : found.size = code.size
  stack : openers.map Opener.position = openAt code pc
  arm : ∀ w ∈ openers, ∀ a, w.elseAt = some a ↔ a < pc ∧ ArmOf code w.position a
  parts : ∀ a < pc, code[a]?.map Instr.bracket = some .parts → openAt code a ≠ []
  opener : ∀ o < pc, code[o]?.map Instr.bracket = some .opens → o ∉ openAt code pc →
    ∃ t, found[o]? = some t ∧ (∃ e, t.endAt = some e ∧ ClosedAt code o e) ∧
      ∀ a, t.elseAt = some a ↔ ArmOf code o a
  partner : ∀ o a, a < pc → ArmOf code o a → o ∉ openAt code pc →
    ∃ t e, found[a]? = some t ∧ t.endAt = some e ∧ ClosedAt code o e

variable {pc : Nat} {openers : List Opener} {found : Array Targets}

theorem walk_start (h : found.size = code.size) : Walk code 0 [] found where
  size := h
  stack := rfl
  arm := by simp
  parts := by simp
  opener := by simp
  partner := by simp

/-- An instruction that opens nothing is no opener, one that parts nothing no arm. -/
theorem ArmOf.lt_of_lt_succ (h : ArmOf code o a) (ha : a < pc + 1)
    (hb : code[pc]?.map Instr.bracket ≠ some .parts) : a < pc := by
  rcases Nat.lt_succ_iff_lt_or_eq.mp ha with hlt | rfl
  · exact hlt
  · exact absurd h.1 hb

theorem Walk.plain (h : Walk code pc openers found)
    (hb : code[pc]?.map Instr.bracket = some .plain) : Walk code (pc + 1) openers found where
  size := h.size
  stack := by rw [h.stack, openAt_plain hb]
  arm w hw a := by
    rw [h.arm w hw a]
    constructor
    · exact fun ⟨ha, hm⟩ => ⟨by omega, hm⟩
    · exact fun ⟨ha, hm⟩ => ⟨hm.lt_of_lt_succ ha (by simp [hb]), hm⟩
  parts a ha hp := by
    rcases Nat.lt_succ_iff_lt_or_eq.mp ha with hlt | rfl
    · exact h.parts a hlt hp
    · simp [hb] at hp
  opener o ho hop hn := by
    rw [openAt_plain hb] at hn
    rcases Nat.lt_succ_iff_lt_or_eq.mp ho with hlt | rfl
    · exact h.opener o hlt hop hn
    · simp [hb] at hop
  partner o a ha hm hn := by
    rw [openAt_plain hb] at hn
    exact h.partner o a (hm.lt_of_lt_succ ha (by simp [hb])) hm hn

theorem Walk.opens (h : Walk code pc openers found)
    (hb : code[pc]?.map Instr.bracket = some .opens) (isIf : Bool) :
    Walk code (pc + 1) (⟨pc, isIf, none⟩ :: openers) found where
  size := h.size
  stack := by rw [List.map_cons, h.stack, openAt_opens hb]
  arm w hw a := by
    rcases List.mem_cons.mp hw with rfl | hw
    · constructor
      · exact fun hn => absurd hn (by simp)
      · rintro ⟨ha, -, hm⟩
        have := lt_of_mem_openAt (List.mem_of_mem_head? hm)
        simp only at this
        omega
    · rw [h.arm w hw a]
      constructor
      · exact fun ⟨ha, hm⟩ => ⟨by omega, hm⟩
      · exact fun ⟨ha, hm⟩ => ⟨hm.lt_of_lt_succ ha (by simp [hb]), hm⟩
  parts a ha hp := by
    rcases Nat.lt_succ_iff_lt_or_eq.mp ha with hlt | rfl
    · exact h.parts a hlt hp
    · simp [hb] at hp
  opener o ho hop hn := by
    rw [openAt_opens hb, List.mem_cons, not_or] at hn
    exact h.opener o (by omega) hop hn.2
  partner o a ha hm hn := by
    rw [openAt_opens hb, List.mem_cons, not_or] at hn
    exact h.partner o a (hm.lt_of_lt_succ ha (by simp [hb])) hm hn.2

/-- The positions behind the innermost opener lie in front of it. -/
theorem Walk.position_lt {w : Opener} (h : Walk code pc (w :: openers) found) :
    ∀ v ∈ openers, v.position < w.position := by
  intro v hv
  have hs := h.stack
  rw [List.map_cons] at hs
  have hw := openAt_of_head? (by rw [← hs]; rfl : (openAt code pc).head? = some w.position)
  rw [← hs, List.cons.injEq] at hw
  exact lt_of_mem_openAt (by rw [← hw.2]; exact List.mem_map_of_mem hv)

theorem Walk.head {w : Opener} (h : Walk code pc (w :: openers) found) :
    (openAt code pc).head? = some w.position := by
  rw [← h.stack]; rfl

/-- An `else` becomes the arm of the innermost opener, which has none yet. -/
theorem Walk.armed {q : Nat} (h : Walk code pc (⟨q, true, none⟩ :: openers) found)
    (hb : code[pc]?.map Instr.bracket = some .parts) :
    Walk code (pc + 1) (⟨q, true, some pc⟩ :: openers) found where
  size := h.size
  stack := by rw [openAt_parts hb, ← h.stack]; rfl
  arm w hw a := by
    rcases List.mem_cons.mp hw with rfl | hw
    · simp only [Option.some.injEq]
      constructor
      · rintro rfl
        exact ⟨Nat.lt_succ_self pc, hb, h.head⟩
      · rintro ⟨ha, hm⟩
        rcases Nat.lt_succ_iff_lt_or_eq.mp ha with hlt | rfl
        · have := (h.arm _ List.mem_cons_self a).mpr ⟨hlt, hm⟩
          exact absurd this (by simp)
        · rfl
    · rw [h.arm w (List.mem_cons_of_mem _ hw) a]
      constructor
      · exact fun ⟨ha, hm⟩ => ⟨by omega, hm⟩
      · rintro ⟨ha, hm⟩
        have hlt := h.position_lt w hw
        rcases Nat.lt_succ_iff_lt_or_eq.mp ha with ha | rfl
        · exact ⟨ha, hm⟩
        · -- the arm belongs to the innermost opener and to no other
          have heq := hm.2.symm.trans h.head
          simp only [Option.some.injEq] at heq
          simp only [heq] at hlt
          omega
  parts a ha hp := by
    rcases Nat.lt_succ_iff_lt_or_eq.mp ha with hlt | rfl
    · exact h.parts a hlt hp
    · intro hn
      have := h.head
      rw [hn] at this
      exact absurd this (by simp)
  opener o ho hop hn := by
    rw [openAt_parts hb] at hn
    rcases Nat.lt_succ_iff_lt_or_eq.mp ho with hlt | rfl
    · exact h.opener o hlt hop hn
    · simp [hb] at hop
  partner o a ha hm hn := by
    rw [openAt_parts hb] at hn
    rcases Nat.lt_succ_iff_lt_or_eq.mp ha with hlt | rfl
    · exact h.partner o a hlt hm hn
    · exact absurd (List.mem_of_mem_head? hm.2) hn

/-! ### Closing -/

theorem size_close (w : Opener) (pc : Nat) (found : Array Targets) :
    (close w pc found).size = found.size := by
  unfold close
  split <;> simp

theorem close_position {w : Opener} (hp : w.position < found.size)
    (hne : w.elseAt ≠ some w.position) :
    (close w pc found)[w.position]? = some ⟨some pc, w.elseAt⟩ := by
  unfold close
  cases hw : w.elseAt with
  | none => simp [hp]
  | some arm =>
    have : arm ≠ w.position := fun e => hne (by rw [hw, e])
    simp only
    rw [Array.getElem?_modify, if_neg this, Array.getElem?_setIfInBounds_self_of_lt hp]

theorem close_arm {w : Opener} {arm : Nat} (hw : w.elseAt = some arm) (ha : arm < found.size) :
    ∃ t, (close w pc found)[arm]? = some t ∧ t.endAt = some pc := by
  unfold close
  simp only [hw]
  rw [Array.getElem?_modify, if_pos rfl, Array.getElem?_eq_getElem (by simpa using ha)]
  exact ⟨_, rfl, rfl⟩

theorem close_other {w : Opener} {q : Nat} (hp : q ≠ w.position) (ha : w.elseAt ≠ some q) :
    (close w pc found)[q]? = found[q]? := by
  unfold close
  cases hw : w.elseAt with
  | none => simp [Array.getElem?_setIfInBounds_ne hp.symm]
  | some arm =>
    have : arm ≠ q := fun e => ha (by rw [hw, e])
    simp only
    rw [Array.getElem?_modify, if_neg this, Array.getElem?_setIfInBounds_ne hp.symm]

theorem lt_size_of_bracket {b : Bracket} (h : code[p]?.map Instr.bracket = some b) :
    p < code.size := by
  rw [Option.map_eq_some_iff] at h
  obtain ⟨i, hi, -⟩ := h
  exact (Array.getElem?_eq_some_iff.mp hi).1

/-- An `end` settles the innermost opener and its arm. -/
theorem Walk.closes {w : Opener} (h : Walk code pc (w :: openers) found)
    (hb : code[pc]? = some .blockEnd) : Walk code (pc + 1) openers (close w pc found) := by
  have hb' : code[pc]?.map Instr.bracket = some .closes := by rw [hb]; rfl
  have hstack : openAt code (pc + 1) = openers.map Opener.position := by
    rw [openAt_closes hb', ← h.stack]; rfl
  have hclosed : ClosedAt code w.position pc := ⟨hb, h.head⟩
  have hopener := (openAt_nested (by rw [← List.head?_eq_getElem?, h.head] :
    (openAt code pc)[0]? = some w.position)).1
  have hlt : w.position < pc := lt_of_mem_openAt (List.mem_of_mem_head? h.head)
  -- an arm is no opener
  have harm : ∀ q, ArmOf code w.position q → q ≠ w.position := by
    rintro q ⟨hq, -⟩ rfl
    rw [hopener] at hq
    exact absurd hq (by simp)
  have hself : w.elseAt ≠ some w.position := fun e =>
    harm _ ((h.arm w List.mem_cons_self _).mp e).2 rfl
  have hgone : w.position ∉ openAt code (pc + 1) := by
    rw [hclosed.openAt_succ]
    exact fun hm => absurd (lt_of_mem_openAt hm) (Nat.lt_irrefl _)
  have hold : ∀ q, q ≠ w.position → q ∉ openAt code (pc + 1) → q ∉ openAt code pc := by
    intro q hq hn hm
    rw [← h.stack, List.map_cons, List.mem_cons] at hm
    rw [hstack] at hn
    exact hm.elim hq hn
  refine ⟨by rw [size_close, h.size], hstack.symm, ?_, ?_, ?_, ?_⟩
  · intro v hv a
    rw [h.arm v (List.mem_cons_of_mem _ hv) a]
    constructor
    · exact fun ⟨ha, hm⟩ => ⟨by omega, hm⟩
    · exact fun ⟨ha, hm⟩ => ⟨hm.lt_of_lt_succ ha (by simp [hb']), hm⟩
  · intro a ha hp
    rcases Nat.lt_succ_iff_lt_or_eq.mp ha with hlt | rfl
    · exact h.parts a hlt hp
    · simp [hb'] at hp
  · intro o ho hop hn
    have ho' : o < pc := by
      rcases Nat.lt_succ_iff_lt_or_eq.mp ho with hlt | rfl
      · exact hlt
      · simp [hb'] at hop
    by_cases hw : o = w.position
    · subst hw
      refine ⟨⟨some pc, w.elseAt⟩, close_position ?_ hself, ⟨pc, rfl, hclosed⟩, fun a => ?_⟩
      · rw [h.size]
        exact lt_size_of_bracket hop
      · show w.elseAt = some a ↔ _
        rw [h.arm w List.mem_cons_self a]
        refine ⟨fun ⟨_, hm⟩ => hm, fun hm => ⟨?_, hm⟩⟩
        -- past its `end` the opener is not open, so no arm of it comes later
        by_contra hge
        have hne : a ≠ pc := by
          rintro rfl
          have := hm.1
          rw [hb'] at this
          exact absurd this (by simp)
        exact not_mem_openAt_mono hgone (by omega) (by omega : pc + 1 ≤ a)
          (List.mem_of_mem_head? hm.2)
    · rw [close_other hw]
      · exact h.opener o ho' hop (hold o hw hn)
      · intro e
        have := ((h.arm w List.mem_cons_self _).mp e).2.1
        rw [hop] at this
        exact absurd this (by simp)
  · intro o a ha hm hn
    have ha' : a < pc := hm.lt_of_lt_succ ha (by simp [hb'])
    by_cases hw : o = w.position
    · subst hw
      have hwa := (h.arm w List.mem_cons_self a).mpr ⟨ha', hm⟩
      obtain ⟨t, ht, hend⟩ : ∃ t, (close w pc found)[a]? = some t ∧ t.endAt = some pc :=
        close_arm hwa (h.size ▸ lt_size_of_bracket hm.1)
      exact ⟨t, pc, ht, hend, hclosed⟩
    · rw [close_other]
      · exact h.partner o a ha' hm (hold o hw hn)
      · rintro rfl
        have := hm.1
        rw [hopener] at this
        exact absurd this (by simp)
      · intro e
        have he := ((h.arm w List.mem_cons_self _).mp e).2.2.symm.trans hm.2
        exact hw (Option.some.inj he).symm

/-- **`scan` keeps the invariant** to the end of the walk. -/
theorem scan_walk {rest : List Instr} {found' : Array Targets}
    (h : scan pc openers found rest = .ok found') (hw : Walk code pc openers found)
    (hc : ∀ k i, rest[k]? = some i → code[pc + k]? = some i) (hu : Unarmed rest) :
    Walk code (pc + rest.length) [] found' := by
  -- the instruction at `pc`, and the same correspondence one position on
  have tail : ∀ {pc : Nat} {i : Instr} {rest : List Instr},
      (∀ k j, (i :: rest)[k]? = some j → code[pc + k]? = some j) →
        code[pc]? = some i ∧ ∀ k j, rest[k]? = some j → code[pc + 1 + k]? = some j := by
    intro pc i rest hc
    refine ⟨hc 0 i rfl, fun k j hj => ?_⟩
    have := hc (k + 1) j (by simpa using hj)
    rwa [show pc + 1 + k = pc + (k + 1) by omega]
  induction rest generalizing pc openers found with
  | nil =>
    unfold scan at h
    split at h
    · cases h
      exact hw
    · exact absurd h (by simp)
  | cons i rest ih =>
    obtain ⟨hi, hc'⟩ := tail hc
    have hu' : Unarmed rest := hu.mono (List.subset_cons_self i rest)
    have hlen : pc + (i :: rest).length = pc + 1 + rest.length := by
      rw [List.length_cons]; omega
    rw [hlen]
    cases i with
    | block r t => exact ih h (hw.opens (by rw [hi]; rfl) false) hc' hu'
    | loop r t => exact ih h (hw.opens (by rw [hi]; rfl) false) hc' hu'
    | ifThen r t arm =>
      cases hu.eq_none
      exact ih h (hw.opens (by rw [hi]; rfl) true) hc' hu'
    | elseThen t =>
      simp only [scan] at h
      split at h
      · exact absurd h (by simp)
      · exact absurd h (by simp)
      · exact absurd h (by simp)
      · exact ih h (hw.armed (by rw [hi]; rfl)) hc' hu'
    | blockEnd =>
      simp only [scan] at h
      split at h
      · exact absurd h (by simp)
      · exact ih h (hw.closes hi) hc' hu'
    | _ => exact ih h (hw.plain (by rw [hi]; rfl)) hc' hu'

/-! ## What `resolve` returns -/

theorem openAt_congr {code' : Array Instr}
    (h : ∀ q : Nat, code[q]?.map Instr.bracket = code'[q]?.map Instr.bracket) (p : Nat) :
    openAt code p = openAt code' p := by
  induction p with
  | zero => rfl
  | succ p ih => simp only [openAt, h, ih]

theorem eq_blockEnd_of_bracket {i : Instr} (h : i.bracket = .closes) : i = .blockEnd := by
  cases i <;> first | rfl | exact absurd h (by simp [Instr.bracket])

theorem ClosedAt.congr {code' : Array Instr}
    (h : ∀ q : Nat, code[q]?.map Instr.bracket = code'[q]?.map Instr.bracket)
    (hc : ClosedAt code o e) : ClosedAt code' o e := by
  refine ⟨?_, by rw [← openAt_congr h]; exact hc.2⟩
  have := h e
  rw [hc.1, Option.map_some, eq_comm, Option.map_eq_some_iff] at this
  obtain ⟨i, hi, hb⟩ := this
  rw [hi, eq_blockEnd_of_bracket hb]

theorem armOf_congr {code' : Array Instr}
    (h : ∀ q : Nat, code[q]?.map Instr.bracket = code'[q]?.map Instr.bracket) :
    ArmOf code o a ↔ ArmOf code' o a := by
  unfold ArmOf
  rw [h, openAt_congr h]

/-- A body with the targets that a walk has found. -/
def withTargets (code : List Instr) (found : Array Targets) : List Instr :=
  code.mapIdx fun pc i => i.withTargets (found.getD pc {})

theorem withTargets_getElem? {code : List Instr} :
    (withTargets code found).toArray[p]? =
      code.toArray[p]?.map (Instr.withTargets (found.getD p {})) := by
  simp [withTargets]

theorem bracket_withTargets {code : List Instr} (q : Nat) :
    code.toArray[q]?.map Instr.bracket =
      (withTargets code found).toArray[q]?.map Instr.bracket := by
  rw [withTargets_getElem?, Option.map_map]
  cases code.toArray[q]? with
  | none => rfl
  | some i => exact congrArg some (Instr.bracket_withTargets _ i).symm

/-- A completed walk resolves the body. -/
theorem Walk.resolved {body : List Instr}
    (h : Walk (body ++ [Instr.blockEnd]).toArray body.length [] found) :
    Resolved (withTargets (body ++ [Instr.blockEnd]) found).toArray := by
  generalize hcode : body ++ [Instr.blockEnd] = code at h
  have hb : ∀ q : Nat, code.toArray[q]?.map Instr.bracket =
      (withTargets code found).toArray[q]?.map Instr.bracket := bracket_withTargets
  have hlast : code.toArray[body.length]? = some .blockEnd := by simp [← hcode]
  have hnil : openAt code.toArray body.length = [] := by rw [← h.stack]; rfl
  -- an instruction with targets comes from one in front of the last
  have source : ∀ {q j}, (withTargets code found).toArray[q]? = some j → j ≠ .blockEnd →
      q < body.length ∧ ∃ i, code.toArray[q]? = some i ∧ j = i.withTargets (found.getD q {}) := by
    intro q j hj hne
    rw [withTargets_getElem?, Option.map_eq_some_iff] at hj
    obtain ⟨i, hi, rfl⟩ := hj
    have hq : q < code.length := by simpa using (Array.getElem?_eq_some_iff.mp hi).1
    have hlen : code.length = body.length + 1 := by rw [← hcode, List.length_append]; rfl
    refine ⟨?_, i, hi, rfl⟩
    rcases Nat.lt_succ_iff_lt_or_eq.mp (by omega : q < body.length + 1) with hlt | rfl
    · exact hlt
    · rw [hlast, Option.some.injEq] at hi
      exact absurd (by rw [← hi]; rfl) hne
  have settled : ∀ {q i}, q < body.length → code.toArray[q]? = some i → i.bracket = .opens →
      (∃ e, (found.getD q {}).endAt = some e ∧ ClosedAt code.toArray q e) ∧
        ∀ a, (found.getD q {}).elseAt = some a ↔ ArmOf code.toArray q a := by
    intro q i hq hi hop
    obtain ⟨t, ht, he, ha⟩ := h.opener q hq (by rw [hi, Option.map_some, hop])
      (by rw [hnil]; simp)
    have : found.getD q {} = t := by simp [Array.getD_eq_getD_getElem?, ht]
    rw [this]
    exact ⟨he, ha⟩
  refine ⟨⟨body.length, ?_, ?_, ?_⟩, ?_, ?_, ?_, ?_⟩
  · simp [withTargets, ← hcode]
  · rw [withTargets_getElem?, hlast]; rfl
  · rw [← openAt_congr hb, hnil]
  · intro o r t ho
    obtain ⟨hlt, i, hi, hj⟩ := source ho (by simp)
    cases i <;> simp only [Instr.withTargets, Instr.block.injEq, reduceCtorEq] at hj
    obtain ⟨⟨e, he, hc⟩, -⟩ := settled hlt hi rfl
    exact ⟨e, hj.2.trans he, hc.congr hb⟩
  · intro o r t ho
    obtain ⟨hlt, i, hi, hj⟩ := source ho (by simp)
    cases i <;> simp only [Instr.withTargets, Instr.loop.injEq, reduceCtorEq] at hj
    obtain ⟨⟨e, he, hc⟩, -⟩ := settled hlt hi rfl
    exact ⟨e, hj.2.trans he, hc.congr hb⟩
  · intro o r t arm ho
    obtain ⟨hlt, i, hi, hj⟩ := source ho (by simp)
    cases i <;> simp only [Instr.withTargets, Instr.ifThen.injEq, reduceCtorEq] at hj
    obtain ⟨⟨e, he, hc⟩, ha⟩ := settled hlt hi rfl
    refine ⟨⟨e, hj.2.1.trans he, hc.congr hb⟩, fun a => ?_⟩
    rw [hj.2.2, ha, armOf_congr hb]
  · intro a t ha
    obtain ⟨hlt, i, hi, hj⟩ := source ha (by simp)
    cases i <;> simp only [Instr.withTargets, Instr.elseThen.injEq, reduceCtorEq] at hj
    have hparts : code.toArray[a]?.map Instr.bracket = some .parts := by rw [hi]; rfl
    cases ho : (openAt code.toArray a).head? with
    | none => exact absurd (List.head?_eq_none_iff.mp ho) (h.parts a hlt hparts)
    | some o =>
      obtain ⟨s, e, hs, he, hc⟩ := h.partner o a hlt ⟨hparts, ho⟩ (by rw [hnil]; simp)
      have : found.getD a {} = s := by simp [Array.getD_eq_getD_getElem?, hs]
      exact ⟨o, e, by rw [hj, this, he], by rw [← openAt_congr hb, ho], hc.congr hb⟩

/-- **What `resolve` returns is resolved**, if it was given no arms. -/
theorem resolved_of_resolve {code resolved : List Instr} (h : resolve code = .ok resolved)
    (hu : Unarmed code) : Resolved resolved.toArray := by
  unfold resolve at h
  split at h
  · rename_i hlast
    have hcode : code.dropLast ++ [Instr.blockEnd] = code := by
      rw [List.getLast?_eq_some_iff] at hlast
      obtain ⟨body, rfl⟩ := hlast
      simp
    split at h
    · exact absurd h (by simp)
    · rename_i found hscan
      cases h
      have hc : ∀ k i, code.dropLast[k]? = some i → code.toArray[0 + k]? = some i := by
        intro k i hk
        rw [Nat.zero_add, List.getElem?_toArray, ← hcode]
        exact List.getElem?_append_left (List.getElem?_eq_some_iff.mp hk).1 ▸ hk
      have hw : Walk code.toArray (0 + code.dropLast.length) [] found :=
        scan_walk hscan (walk_start (by simp)) hc (hu.mono (List.dropLast_subset code))
      rw [Nat.zero_add, ← hcode, List.dropLast_concat] at hw
      have := hw.resolved
      rwa [hcode] at this
  · exact absurd h (by simp)

/-- An `if` keeps an arm that it was given, even if that is no `else`. -/
example : resolve [.ifThen none none (some 0), .blockEnd, .blockEnd] =
    .ok [.ifThen none (some 1) (some 0), .blockEnd, .blockEnd] := rfl

end Nesting

end WasmDebugger
