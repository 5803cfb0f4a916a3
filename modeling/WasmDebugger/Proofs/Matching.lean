import WasmDebugger.Proofs.Brackets

/-!
# Matching ends

The grammar of function bodies once more, now with the targets: each opener names the index of its
`end`, and each `if` that of its `else`. `Nesting.resolve` finds these targets and changes nothing
else.

* `Along`: what holds at every index of a part of a body.
* `Level`: behind a part the same blocks are open as in front of it. `Inward`: its arms are those of
  its own openers. Balanced sequences are both.
* `Matched`: balanced sequences with the right targets, by the index that they start at.
* `Matched.settled`: these targets are those that the nesting of a body asks for.
* `scan_roomy`: what `scan` writes down has its place in the instruction that it is meant for.
* **`resolve_computes_matching`**: `resolve` succeeds on the well-bracketed bodies alone, and
  returns their instructions with the matching targets.
-/

namespace WasmDebugger.Nesting

/-! ## Parts of a body -/

/-- `P` holds of every instruction, at its index in a body that has the first one at `pc`. -/
def Along (P : Nat → Instr → Prop) (pc : Nat) (items : List Instr) : Prop :=
  ∀ k i, items[k]? = some i → P (pc + k) i

/-- The instructions stand in the body from `pc` on. -/
def Placed (code : Array Instr) : Nat → List Instr → Prop := Along fun p i => code[p]? = some i

variable {P : Nat → Instr → Prop} {code : Array Instr} {i : Instr} {t : Option Nat}
  {items rest body yes no front back : List Instr} {pc o a e : Nat}

theorem along_nil : Along P pc [] := by
  intro k i hi
  exact absurd hi (by simp)

theorem along_cons : Along P pc (i :: rest) ↔ P pc i ∧ Along P (pc + 1) rest := by
  constructor
  · intro h
    refine ⟨h 0 i rfl, fun k j hj => ?_⟩
    have := h (k + 1) j hj
    rwa [show pc + (k + 1) = pc + 1 + k by omega] at this
  · rintro ⟨hi, hrest⟩ k j hj
    cases k with
    | zero =>
      cases hj
      exact hi
    | succ k =>
      have := hrest k j hj
      rwa [show pc + 1 + k = pc + (k + 1) by omega] at this

theorem along_append :
    Along P pc (front ++ back) ↔ Along P pc front ∧ Along P (pc + front.length) back := by
  induction front generalizing pc with
  | nil => exact ⟨fun h => ⟨along_nil, h⟩, fun h => h.2⟩
  | cons j front ih =>
    rw [List.cons_append, along_cons, along_cons, ih, List.length_cons, and_assoc,
      show pc + (front.length + 1) = pc + 1 + front.length by omega]

theorem along_block : Along P pc (i :: (body ++ .blockEnd :: rest)) ↔
    P pc i ∧ Along P (pc + 1) body ∧ P (pc + 1 + body.length) .blockEnd ∧
      Along P (pc + 1 + body.length + 1) rest := by
  rw [along_cons, along_append, along_cons]

theorem along_ifElse : Along P pc (i :: (yes ++ .elseThen t :: (no ++ .blockEnd :: rest))) ↔
    P pc i ∧ Along P (pc + 1) yes ∧ P (pc + 1 + yes.length) (.elseThen t) ∧
      Along P (pc + 1 + yes.length + 1) no ∧ P (pc + 1 + yes.length + 1 + no.length) .blockEnd ∧
      Along P (pc + 1 + yes.length + 1 + no.length + 1) rest := by
  rw [along_cons, along_append, along_block]

/-- There is an instruction at every index of the part. -/
theorem Along.at (h : Along P pc items) (hle : pc ≤ a) (hlt : a < pc + items.length) :
    ∃ i, P a i := by
  have hk : a - pc < items.length := by omega
  have := h (a - pc) _ (List.getElem?_eq_getElem hk)
  rw [show pc + (a - pc) = a by omega] at this
  exact ⟨_, this⟩

/-- A whole body stands in itself. -/
theorem placed_toArray (items : List Instr) : Placed items.toArray 0 items := by
  intro k i hi
  rw [Nat.zero_add, List.getElem?_toArray, hi]

/-! ## Level parts -/

/-- Behind the part the same blocks are open as in front of it. -/
def Level (code : Array Instr) (items : List Instr) : Prop :=
  ∀ pc, Placed code pc items → openAt code (pc + items.length) = openAt code pc

theorem bracket_eq (h : code[pc]? = some i) : code[pc]?.map Instr.bracket = some i.bracket := by
  rw [h, Option.map_some]

/-- An opener is the innermost one behind a level part. -/
theorem Level.openAt_eq (hbody : Level code body) (hi : i.bracket = .opens)
    (hopen : code[pc]? = some i) (hp : Placed code (pc + 1) body) :
    openAt code (pc + 1 + body.length) = pc :: openAt code pc := by
  rw [hbody _ hp, openAt_opens (hi ▸ bracket_eq hopen)]

/-- What opens in front of a level part is closed by the `end` behind it. -/
theorem Level.closedAt (hbody : Level code body) (hi : i.bracket = .opens)
    (hp : Placed code pc (i :: (body ++ .blockEnd :: rest))) :
    ClosedAt code pc (pc + 1 + body.length) := by
  obtain ⟨hopen, hpbody, hend, -⟩ := along_block.mp hp
  exact ⟨hend, by rw [hbody.openAt_eq hi hopen hpbody]; rfl⟩

theorem Level.plain (hi : i.bracket = .plain) (hrest : Level code rest) :
    Level code (i :: rest) := by
  intro pc hp
  obtain ⟨hplain, hp⟩ := along_cons.mp hp
  rw [List.length_cons, show pc + (rest.length + 1) = pc + 1 + rest.length by omega, hrest _ hp,
    openAt_plain (hi ▸ bracket_eq hplain)]

theorem Level.block (hi : i.bracket = .opens) (hbody : Level code body) (hrest : Level code rest) :
    Level code (i :: (body ++ .blockEnd :: rest)) := by
  intro pc hp
  have hclosed := hbody.closedAt hi hp
  obtain ⟨-, -, -, hprest⟩ := along_block.mp hp
  rw [List.length_cons, List.length_append, List.length_cons,
    show pc + (body.length + (rest.length + 1) + 1) = pc + 1 + body.length + 1 + rest.length by
      omega,
    hrest _ hprest, hclosed.openAt_succ]

/-- Two level parts with an `else` between them are level, too. -/
theorem Level.arms (hyes : Level code yes) (hno : Level code no) :
    Level code (yes ++ .elseThen t :: no) := by
  intro pc hp
  obtain ⟨hpyes, hp⟩ := along_append.mp hp
  obtain ⟨helse, hpno⟩ := along_cons.mp hp
  rw [List.length_append, List.length_cons,
    show pc + (yes.length + (no.length + 1)) = pc + yes.length + 1 + no.length by omega,
    hno _ hpno, openAt_parts (bracket_eq helse), hyes _ hpyes]

/-- The two arms of an `if` are its body. -/
theorem arms_append (yes no rest : List Instr) (t : Option Nat) :
    yes ++ .elseThen t :: (no ++ .blockEnd :: rest) =
      (yes ++ .elseThen t :: no) ++ .blockEnd :: rest := by
  rw [List.append_assoc, List.cons_append]

theorem length_arms (yes no : List Instr) (t : Option Nat) (pc : Nat) :
    pc + 1 + (yes ++ .elseThen t :: no).length = pc + 1 + yes.length + 1 + no.length := by
  rw [List.length_append, List.length_cons]
  omega

/-- **A balanced sequence is level.** -/
theorem Balanced.level (h : Balanced items) : Level code items := by
  induction h with
  | nil => exact fun _ _ => rfl
  | plain hi _ ih => exact ih.plain hi
  | block _ _ _ _ ihbody ihrest => exact ihbody.block rfl ihrest
  | loop _ _ _ _ ihbody ihrest => exact ihbody.block rfl ihrest
  | ifThen _ _ _ _ _ ihbody ihrest => exact ihbody.block rfl ihrest
  | ifElse _ _ _ _ _ _ _ ihyes ihno ihrest =>
    rw [arms_append]
    exact (ihyes.arms ihno).block rfl ihrest

/-- An `if` with an `else` is closed behind its second arm. -/
theorem Level.closedAt_ifElse (hyes : Level code yes) (hno : Level code no)
    (hi : i.bracket = .opens)
    (hp : Placed code pc (i :: (yes ++ .elseThen t :: (no ++ .blockEnd :: rest)))) :
    ClosedAt code pc (pc + 1 + yes.length + 1 + no.length) := by
  rw [arms_append] at hp
  rw [← length_arms yes no t]
  exact (hyes.arms hno).closedAt hi hp

/-! ## Arms -/

/-- What does not part is no arm. -/
theorem not_armOf (h : code[a]? = some i) (hi : i.bracket ≠ .parts) : ¬ ArmOf code o a := by
  intro ha
  have hparts := ha.1
  rw [bracket_eq h] at hparts
  exact hi (Option.some.inj hparts)

/-- The `else` behind a level part is an arm of the opener in front of it. -/
theorem Level.armOf (hyes : Level code yes) (hi : i.bracket = .opens)
    (hp : Placed code pc (i :: (yes ++ .elseThen t :: (no ++ .blockEnd :: rest)))) :
    ArmOf code pc (pc + 1 + yes.length) := by
  obtain ⟨hopen, hpyes, helse, -⟩ := along_ifElse.mp hp
  exact ⟨bracket_eq helse, by rw [hyes.openAt_eq hi hopen hpyes]; rfl⟩

/-- An arm lies between its opener and the `end` of that. -/
theorem ArmOf.between (ha : ArmOf code o a) (hc : ClosedAt code o e) : o < a ∧ a < e := by
  have hopen : o ∈ openAt code a := List.mem_of_mem_head? ha.2
  refine ⟨lt_of_mem_openAt hopen, ?_⟩
  by_contra hge
  by_cases hae : a = e
  · subst hae
    exact not_armOf hc.1 (by simp [Instr.bracket]) ha
  · -- behind its `end` the opener is not open any more
    have hoe : o < e := lt_of_mem_openAt (List.mem_of_mem_head? hc.2)
    have hgone : o ∉ openAt code (e + 1) := by
      rw [hc.openAt_succ]
      exact fun hm => absurd (lt_of_mem_openAt hm) (Nat.lt_irrefl _)
    exact not_mem_openAt_mono hgone (by omega) (by omega) hopen

/-- No arm in the part belongs to an opener in front of it. -/
def Inward (code : Array Instr) (items : List Instr) : Prop :=
  ∀ pc, Placed code pc items → ∀ o < pc, Along (fun a _ => ¬ ArmOf code o a) pc items

theorem Inward.block (hi : i.bracket = .opens) (hbody : Inward code body)
    (hrest : Inward code rest) : Inward code (i :: (body ++ .blockEnd :: rest)) := by
  intro pc hp o ho
  obtain ⟨hopen, hpbody, hend, hprest⟩ := along_block.mp hp
  refine along_block.mpr ⟨not_armOf hopen ?_, hbody _ hpbody o ?_, not_armOf hend ?_,
    hrest _ hprest o ?_⟩
  · simp [hi]
  · omega
  · simp [Instr.bracket]
  · omega

/-- **A balanced sequence is inward.** -/
theorem Balanced.inward (h : Balanced items) : Inward code items := by
  induction h with
  | nil => exact fun _ _ _ _ => along_nil
  | plain hi _ ih =>
    intro pc hp o ho
    obtain ⟨hplain, hprest⟩ := along_cons.mp hp
    exact along_cons.mpr ⟨not_armOf hplain (by simp [hi]), ih _ hprest o (by omega)⟩
  | block _ _ _ _ ihbody ihrest => exact ihbody.block rfl ihrest
  | loop _ _ _ _ ihbody ihrest => exact ihbody.block rfl ihrest
  | ifThen _ _ _ _ _ ihbody ihrest => exact ihbody.block rfl ihrest
  | ifElse _ _ _ _ hyes _ _ ihyes ihno ihrest =>
    intro pc hp o ho
    have harm := hyes.level.armOf rfl hp
    obtain ⟨hopen, hpyes, -, hpno, hend, hprest⟩ := along_ifElse.mp hp
    refine along_ifElse.mpr ⟨not_armOf hopen (by simp [Instr.bracket]), ihyes _ hpyes o (by omega),
      fun ha => ?_, ihno _ hpno o (by omega), not_armOf hend (by simp [Instr.bracket]),
      ihrest _ hprest o (by omega)⟩
    -- the `else` belongs to the opener of this `if`
    have hsame := Option.some.inj (ha.2.symm.trans harm.2)
    omega

/-- An opener has no arm in a body that is inward. -/
theorem Inward.not_armOf (hbody : Inward code body) (hp : Placed code (pc + 1) body)
    (hlt : pc < a) (hgt : a < pc + 1 + body.length) : ¬ ArmOf code pc a := by
  obtain ⟨-, hnot⟩ := (hbody _ hp pc (Nat.lt_succ_self pc)).at hlt hgt
  exact hnot

/-! ## Matched sequences -/

/-- **Balanced sequences with the right targets**, by the index of their first instruction: every
opener and every `else` names its `end`, and an `if` names its `else` if it has one. -/
inductive Matched : Nat → List Instr → Prop where
  | nil (pc : Nat) : Matched pc []
  | plain {pc : Nat} {i : Instr} {rest : List Instr} (hi : i.bracket = .plain)
      (hrest : Matched (pc + 1) rest) : Matched pc (i :: rest)
  | block {pc : Nat} (r : Option ValueType) {body rest : List Instr}
      (hbody : Matched (pc + 1) body) (hrest : Matched (pc + 1 + body.length + 1) rest) :
      Matched pc (.block r (some (pc + 1 + body.length)) :: (body ++ .blockEnd :: rest))
  | loop {pc : Nat} (r : Option ValueType) {body rest : List Instr}
      (hbody : Matched (pc + 1) body) (hrest : Matched (pc + 1 + body.length + 1) rest) :
      Matched pc (.loop r (some (pc + 1 + body.length)) :: (body ++ .blockEnd :: rest))
  | ifThen {pc : Nat} (r : Option ValueType) {body rest : List Instr}
      (hbody : Matched (pc + 1) body) (hrest : Matched (pc + 1 + body.length + 1) rest) :
      Matched pc (.ifThen r (some (pc + 1 + body.length)) none :: (body ++ .blockEnd :: rest))
  | ifElse {pc : Nat} (r : Option ValueType) {yes no rest : List Instr}
      (hyes : Matched (pc + 1) yes) (hno : Matched (pc + 1 + yes.length + 1) no)
      (hrest : Matched (pc + 1 + yes.length + 1 + no.length + 1) rest) :
      Matched pc (.ifThen r (some (pc + 1 + yes.length + 1 + no.length))
          (some (pc + 1 + yes.length)) ::
        (yes ++ .elseThen (some (pc + 1 + yes.length + 1 + no.length)) ::
          (no ++ .blockEnd :: rest)))

theorem Matched.balanced (h : Matched pc items) : Balanced items := by
  induction h with
  | nil => exact .nil
  | plain hi _ ih => exact .plain hi ih
  | block r _ _ ihbody ihrest => exact .block r _ ihbody ihrest
  | loop r _ _ ihbody ihrest => exact .loop r _ ihbody ihrest
  | ifThen r _ _ ihbody ihrest => exact .ifThen r _ _ ihbody ihrest
  | ifElse r _ _ _ ihyes ihno ihrest => exact .ifElse r _ _ _ ihyes ihno ihrest

/-- The targets of the instruction at `o` are those that the nesting asks for. -/
def Settled (code : Array Instr) (o : Nat) : Instr → Prop
  | .block _ t | .loop _ t => ∃ e, t = some e ∧ ClosedAt code o e
  | .ifThen _ t arm => (∃ e, t = some e ∧ ClosedAt code o e) ∧ ∀ a, arm = some a ↔ ArmOf code o a
  | .elseThen t => ∃ opener e, t = some e ∧ (openAt code o).head? = some opener ∧
      ClosedAt code opener e
  | _ => True

theorem settled_plain (hi : i.bracket = .plain) : Settled code o i := by
  cases i <;> first | exact trivial | exact absurd hi (by simp [Instr.bracket])

/-- **A matched sequence has the targets that the nesting asks for**, wherever it stands. -/
theorem Matched.settled (h : Matched pc items) (hp : Placed code pc items) :
    Along (Settled code) pc items := by
  induction h with
  | nil => exact along_nil
  | plain hi _ ih => exact along_cons.mpr ⟨settled_plain hi, ih (along_cons.mp hp).2⟩
  | block _ hbody _ ihbody ihrest =>
    have hclosed := hbody.balanced.level.closedAt rfl hp
    obtain ⟨-, hpbody, -, hprest⟩ := along_block.mp hp
    exact along_block.mpr ⟨⟨_, rfl, hclosed⟩, ihbody hpbody, trivial, ihrest hprest⟩
  | loop _ hbody _ ihbody ihrest =>
    have hclosed := hbody.balanced.level.closedAt rfl hp
    obtain ⟨-, hpbody, -, hprest⟩ := along_block.mp hp
    exact along_block.mpr ⟨⟨_, rfl, hclosed⟩, ihbody hpbody, trivial, ihrest hprest⟩
  | ifThen _ hbody _ ihbody ihrest =>
    have hclosed := hbody.balanced.level.closedAt rfl hp
    obtain ⟨-, hpbody, -, hprest⟩ := along_block.mp hp
    refine along_block.mpr ⟨⟨⟨_, rfl, hclosed⟩, fun a => ⟨fun hnone => absurd hnone nofun,
      fun ha => ?_⟩⟩, ihbody hpbody, trivial, ihrest hprest⟩
    obtain ⟨hlt, hgt⟩ := ha.between hclosed
    exact absurd ha (hbody.balanced.inward.not_armOf hpbody hlt hgt)
  | @ifElse pc _ yes no _ hyes hno _ ihyes ihno ihrest =>
    have hclosed := hyes.balanced.level.closedAt_ifElse hno.balanced.level rfl hp
    have harm := hyes.balanced.level.armOf rfl hp
    obtain ⟨-, hpyes, -, hpno, -, hprest⟩ := along_ifElse.mp hp
    refine along_ifElse.mpr ⟨⟨⟨_, rfl, hclosed⟩, fun a => ⟨?_, fun ha => ?_⟩⟩, ihyes hpyes,
      ⟨pc, _, rfl, harm.2, hclosed⟩, ihno hpno, trivial, ihrest hprest⟩
    · rintro ⟨rfl⟩
      exact harm
    · -- no other `else` in either arm belongs to the `if`
      obtain ⟨hlt, hgt⟩ := ha.between hclosed
      rcases Nat.lt_trichotomy a (pc + 1 + yes.length) with hbefore | rfl | hbehind
      · exact absurd ha (hyes.balanced.inward.not_armOf hpyes hlt hbefore)
      · rfl
      · obtain ⟨-, hnot⟩ := (hno.balanced.inward _ hpno pc (by omega)).at hbehind hgt
        exact absurd ha hnot

/-- A balanced sequence can be matched, from whatever index on. -/
theorem Balanced.exists_matched (h : Balanced items) (pc : Nat) :
    ∃ matched, Matched pc matched ∧ matched.map Instr.bare = items.map Instr.bare := by
  induction h generalizing pc with
  | nil => exact ⟨[], .nil pc, rfl⟩
  | plain hi _ ih =>
    obtain ⟨rest, hrest, hbare⟩ := ih (pc + 1)
    exact ⟨_, .plain hi hrest, by simp [hbare]⟩
  | block r _ _ _ ihbody ihrest =>
    obtain ⟨body, hbody, hbare⟩ := ihbody (pc + 1)
    obtain ⟨rest, hrest, hbare'⟩ := ihrest (pc + 1 + body.length + 1)
    exact ⟨_, .block r hbody hrest, by simp [hbare, hbare', Instr.bare, Instr.withTargets]⟩
  | loop r _ _ _ ihbody ihrest =>
    obtain ⟨body, hbody, hbare⟩ := ihbody (pc + 1)
    obtain ⟨rest, hrest, hbare'⟩ := ihrest (pc + 1 + body.length + 1)
    exact ⟨_, .loop r hbody hrest, by simp [hbare, hbare', Instr.bare, Instr.withTargets]⟩
  | ifThen r _ _ _ _ ihbody ihrest =>
    obtain ⟨body, hbody, hbare⟩ := ihbody (pc + 1)
    obtain ⟨rest, hrest, hbare'⟩ := ihrest (pc + 1 + body.length + 1)
    exact ⟨_, .ifThen r hbody hrest, by simp [hbare, hbare', Instr.bare, Instr.withTargets]⟩
  | ifElse r _ _ _ _ _ _ ihyes ihno ihrest =>
    obtain ⟨yes, hyes, hbare⟩ := ihyes (pc + 1)
    obtain ⟨no, hno, hbare'⟩ := ihno (pc + 1 + yes.length + 1)
    obtain ⟨rest, hrest, hbare''⟩ := ihrest (pc + 1 + yes.length + 1 + no.length + 1)
    exact ⟨_, .ifElse r hyes hno hrest,
      by simp [hbare, hbare', hbare'', Instr.bare, Instr.withTargets]⟩

/-! ## Whole bodies -/

/-- A matched sequence and the `end` of the body make a resolved body. -/
theorem Matched.resolved (h : Matched 0 items) :
    Resolved (items ++ [Instr.blockEnd]).toArray := by
  have hp : Placed (items ++ [Instr.blockEnd]).toArray 0 items :=
    (along_append.mp (placed_toArray (items ++ [Instr.blockEnd]))).1
  have hsettled : Along (Settled (items ++ [Instr.blockEnd]).toArray) 0 (items ++ [.blockEnd]) :=
    along_append.mpr ⟨h.settled hp, along_cons.mpr ⟨trivial, along_nil⟩⟩
  have hat : ∀ {o i}, (items ++ [Instr.blockEnd]).toArray[o]? = some i →
      Settled (items ++ [Instr.blockEnd]).toArray o i := by
    intro o i hi
    rw [List.getElem?_toArray] at hi
    have := hsettled o i hi
    rwa [Nat.zero_add] at this
  refine ⟨⟨items.length, by simp, by simp, ?_⟩, hat, hat, hat, hat⟩
  have hlevel := h.balanced.level 0 hp
  rwa [Nat.zero_add] at hlevel

variable {resolved : List Instr}

/-- What `resolve` returns for a body without targets, if it returns anything. -/
theorem resolve_eq_ok_iff {code : List Instr} (hcode : ∀ i ∈ code, i.bare = i) :
    resolve code = .ok resolved ↔
      resolved.map Instr.bare = code ∧
        ∃ items, Matched 0 items ∧ resolved = items ++ [.blockEnd] := by
  have found : ∀ {items}, Matched 0 items → (items ++ [Instr.blockEnd]).map Instr.bare = code →
      resolve code = .ok (items ++ [.blockEnd]) := by
    intro items hitems hbare
    rw [← hbare]
    exact resolve_of_resolved ⟨items, hitems.balanced, rfl⟩ hitems.resolved
  constructor
  · intro h
    have hbare := (map_bare_of_resolve h).trans (map_bare hcode)
    obtain ⟨items, hitems, hitemsCode⟩ := wellBracketed_of_resolve h
    obtain ⟨matched, hmatched, hmatchedBare⟩ := hitems.exists_matched 0
    have hfound : resolve code = .ok (matched ++ [.blockEnd]) := by
      refine found hmatched ?_
      rw [List.map_append, hmatchedBare, ← List.map_append, ← hitemsCode, map_bare hcode]
    rw [h] at hfound
    exact ⟨hbare, matched, hmatched, Except.ok.inj hfound⟩
  · rintro ⟨hbare, items, hitems, rfl⟩
    exact found hitems hbare

/-! ## Nothing else is recorded

`scan` writes down a pair of targets for any index. It does so only where the instruction has a
place for them, so none gets lost. -/

/-- The instruction has a place for the targets. -/
def Room (i : Instr) (t : Targets) : Prop := targetsOf (i.withTargets t) = t

theorem room_targetsOf (i : Instr) : Room i (targetsOf i) := by
  cases i <;> rfl

theorem room_elseThen {t : Option Nat} {targets : Targets} (h : Room (.elseThen t) targets)
    (e : Option Nat) : Room (.elseThen t) { targets with endAt := e } :=
  congrArg (Targets.mk e) (congrArg Targets.elseAt h)

/-- There is room for all that has been recorded, and for what the waiting openers will record. -/
structure Roomy (code : Array Instr) (openers : List Opener) (found : Array Targets) : Prop where
  found : ∀ q i, code[q]? = some i → Room i (found.getD q {})
  opener : ∀ w ∈ openers, ∀ i, code[w.position]? = some i → ∀ e, Room i ⟨some e, w.elseAt⟩
  isIf : ∀ w ∈ openers, w.isIf = true → ∀ i, code[w.position]? = some i → ∀ t, Room i t
  arm : ∀ w ∈ openers, ∀ a, w.elseAt = some a → ∀ i, code[a]? = some i → ∃ t, i = .elseThen t

variable {openers : List Opener} {found found' : Array Targets} {w : Opener}

theorem roomy_start (code : List Instr) :
    Roomy code.toArray [] (code.map targetsOf).toArray where
  found q i hi := by
    rw [List.getElem?_toArray] at hi
    rw [Array.getD_eq_getD_getElem?, List.getElem?_toArray, List.getElem?_map, hi]
    exact room_targetsOf i
  opener := by simp
  isIf := by simp
  arm := by simp

theorem Roomy.opens {isIf : Bool} (h : Roomy code openers found) (hi : code[pc]? = some i)
    (hend : ∀ e, Room i ⟨some e, none⟩) (hall : isIf = true → ∀ t, Room i t) :
    Roomy code (⟨pc, isIf, none⟩ :: openers) found where
  found := h.found
  opener := by
    refine List.forall_mem_cons.mpr ⟨fun j hj e => ?_, h.opener⟩
    rw [hi] at hj
    cases hj
    exact hend e
  isIf := by
    refine List.forall_mem_cons.mpr ⟨fun hif j hj => ?_, h.isIf⟩
    rw [hi] at hj
    cases hj
    exact hall hif
  arm := List.forall_mem_cons.mpr ⟨nofun, h.arm⟩

theorem Roomy.armed {q : Nat} (h : Roomy code (⟨q, true, none⟩ :: openers) found)
    (hi : code[pc]? = some (.elseThen t)) : Roomy code (⟨q, true, some pc⟩ :: openers) found where
  found := h.found
  opener := List.forall_mem_cons.mpr
    ⟨fun j hj _ => h.isIf _ List.mem_cons_self rfl j hj _, (List.forall_mem_cons.mp h.opener).2⟩
  isIf := List.forall_mem_cons.mpr
    ⟨fun _ j hj => h.isIf _ List.mem_cons_self rfl j hj, (List.forall_mem_cons.mp h.isIf).2⟩
  arm := by
    refine List.forall_mem_cons.mpr ⟨fun a ha j hj => ?_, (List.forall_mem_cons.mp h.arm).2⟩
    cases ha
    rw [hi] at hj
    cases hj
    exact ⟨t, rfl⟩

/-- Recording targets for which there is room. -/
theorem room_setIfInBounds {p : Nat} {new : Targets}
    (h : ∀ q i, code[q]? = some i → Room i (found.getD q {}))
    (hnew : ∀ i, code[p]? = some i → Room i new) :
    ∀ q i, code[q]? = some i → Room i ((found.setIfInBounds p new).getD q {}) := by
  intro q i hi
  have hold := h q i hi
  rw [Array.getD_eq_getD_getElem?] at hold ⊢
  by_cases hpq : p = q
  · subst hpq
    by_cases hp : p < found.size
    · rw [Array.getElem?_setIfInBounds_self_of_lt hp]
      exact hnew i hi
    · rwa [Array.setIfInBounds_eq_of_size_le (Nat.le_of_not_lt hp)]
  · rwa [Array.getElem?_setIfInBounds_ne hpq]

/-- Changing targets where there is room for the change. -/
theorem room_modify {p : Nat} {f : Targets → Targets}
    (h : ∀ q i, code[q]? = some i → Room i (found.getD q {}))
    (hf : ∀ i t, code[p]? = some i → Room i t → Room i (f t)) :
    ∀ q i, code[q]? = some i → Room i ((found.modify p f).getD q {}) := by
  intro q i hi
  have hold := h q i hi
  rw [Array.getD_eq_getD_getElem?] at hold ⊢
  rw [Array.getElem?_modify]
  by_cases hpq : p = q
  · subst hpq
    rw [if_pos rfl]
    cases hq : found[p]? with
    | none => rwa [hq] at hold
    | some t =>
      rw [hq] at hold
      exact hf i t hi hold
  · rwa [if_neg hpq]

theorem Roomy.closes (h : Roomy code (w :: openers) found) (e : Nat) :
    Roomy code openers (close w e found) where
  found := by
    have hopener := room_setIfInBounds h.found fun i hi => h.opener w List.mem_cons_self i hi e
    unfold close
    simp only
    split
    · exact hopener
    · rename_i a ha
      refine room_modify hopener fun i t hi hroom => ?_
      obtain ⟨_, rfl⟩ := h.arm w List.mem_cons_self a ha i hi
      exact room_elseThen hroom (some e)
  opener := (List.forall_mem_cons.mp h.opener).2
  isIf := (List.forall_mem_cons.mp h.isIf).2
  arm := (List.forall_mem_cons.mp h.arm).2

/-- **`scan` keeps to where there is room.** -/
theorem scan_roomy (h : scan pc openers found rest = .ok found') (hr : Roomy code openers found)
    (hp : Placed code pc rest) (hu : Unarmed rest) : Roomy code [] found' := by
  induction rest generalizing pc openers found with
  | nil =>
    unfold scan at h
    split at h
    · cases h
      exact hr
    · cases h
  | cons i rest ih =>
    obtain ⟨hi, hrest⟩ := along_cons.mp hp
    have hu' : Unarmed rest := hu.mono (List.subset_cons_self i rest)
    cases i with
    | block r t => exact ih h (hr.opens hi (fun _ => rfl) nofun) hrest hu'
    | loop r t => exact ih h (hr.opens hi (fun _ => rfl) nofun) hrest hu'
    | ifThen r t arm =>
      cases hu.eq_none
      exact ih h (hr.opens hi (fun _ => rfl) fun _ _ => rfl) hrest hu'
    | elseThen t =>
      simp only [scan] at h
      split at h
      · cases h
      · cases h
      · cases h
      · exact ih h (hr.armed hi) hrest hu'
    | blockEnd =>
      simp only [scan] at h
      split at h
      · cases h
      · exact ih h (hr.closes pc) hrest hu'
    | _ => exact ih h hr hrest hu'

/-- **The targets that are recorded are those that the instructions then name.** -/
theorem targets_of_resolve {code resolved : List Instr} (hu : Unarmed code)
    (h : resolve code = .ok resolved)
    (hs : scan 0 [] (code.map targetsOf).toArray code.dropLast = .ok found) :
    ∀ p i, resolved[p]? = some i → targetsOf i = found.getD p {} := by
  obtain ⟨items, found', rfl, hs', rfl⟩ := exists_scan_of_resolve h
  rw [List.dropLast_concat, hs'] at hs
  cases hs
  have hplaced : Placed (items ++ [Instr.blockEnd]).toArray 0 items :=
    (along_append.mp (placed_toArray (items ++ [Instr.blockEnd]))).1
  have hroomy := scan_roomy hs' (roomy_start _) hplaced (hu.mono (List.subset_append_left _ _))
  intro p j hj
  unfold withTargets at hj
  rw [List.getElem?_mapIdx, Option.map_eq_some_iff] at hj
  obtain ⟨i, hi, rfl⟩ := hj
  exact hroomy.found p i (by rw [List.getElem?_toArray, hi])

/-- Instructions without targets name none. -/
theorem toArray_map_targetsOf {code : List Instr} (hcode : ∀ i ∈ code, i.bare = i) :
    (code.map targetsOf).toArray = Array.replicate code.length {} := by
  rw [← List.toArray_replicate]
  refine congrArg List.toArray (List.map_eq_replicate_iff.mpr fun i hi => ?_)
  rw [← hcode i hi]
  cases i <;> rfl

/-! ## The whole of it -/

/-- **`resolve` computes the matching ends.** Instructions without targets are accepted if they are
a well-bracketed body, and only then. What comes back is these instructions with the targets of a
matched sequence: apart from the targets nothing differs. And no target has been recorded that they
do not name. -/
theorem resolve_computes_matching {code : List Instr} (hcode : ∀ i ∈ code, i.bare = i) :
    ((∃ resolved, resolve code = .ok resolved) ↔ WellBracketed code) ∧
      (∀ resolved, resolve code = .ok resolved ↔
        resolved.map Instr.bare = code ∧
          ∃ items, Matched 0 items ∧ resolved = items ++ [.blockEnd]) ∧
      ∀ resolved found, resolve code = .ok resolved →
        scan 0 [] (Array.replicate code.length {}) code.dropLast = .ok found →
        ∀ p i, resolved[p]? = some i → targetsOf i = found.getD p {} := by
  have hu := unarmed_of_bare hcode
  rw [← toArray_map_targetsOf hcode]
  exact ⟨resolve_isOk_iff hu, fun _ => resolve_eq_ok_iff hcode, fun _ _ => targets_of_resolve hu⟩

/-- An `if` with two arms in a block, with a loop in the second arm. -/
def nestedArms : List Instr :=
  [.block none none, .const (.i32 1), .ifThen none none none, .nop, .elseThen none,
    .loop none none, .blockEnd, .blockEnd, .blockEnd, .blockEnd]

def nestedArmsResolved : List Instr :=
  [.block none (some 8), .const (.i32 1), .ifThen none (some 7) (some 4), .nop, .elseThen (some 7),
    .loop none (some 6), .blockEnd, .blockEnd, .blockEnd, .blockEnd]

theorem resolve_computes_matching_nestedArms :
    (∀ i ∈ nestedArms, i.bare = i) ∧ resolve nestedArms = .ok nestedArmsResolved ∧
      (∃ items, Matched 0 items ∧ nestedArmsResolved = items ++ [.blockEnd]) ∧
      ∃ found, scan 0 [] (Array.replicate nestedArms.length {}) nestedArms.dropLast = .ok found ∧
        found.getD 2 {} = ⟨some 7, some 4⟩ := by
  have hcode : ∀ i ∈ nestedArms, i.bare = i := by decide
  have hresolve : resolve nestedArms = .ok nestedArmsResolved := rfl
  have hscan : scan 0 [] (Array.replicate nestedArms.length {}) nestedArms.dropLast =
      .ok (nestedArmsResolved.map targetsOf).toArray := rfl
  obtain ⟨-, hmatched, htargets⟩ := resolve_computes_matching hcode
  exact ⟨hcode, hresolve, ((hmatched _).mp hresolve).2, _, hscan,
    (htargets _ _ hresolve hscan 2 _ rfl).symm⟩

end WasmDebugger.Nesting
