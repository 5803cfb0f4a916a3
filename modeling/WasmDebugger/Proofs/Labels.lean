import Mathlib.Data.List.Forall2
import WasmDebugger.Proofs.Bodies
import WasmDebugger.Proofs.Reachable

/-!
# Labels mirror the nesting

Labels are pushed and popped as instructions are carried out, and targets were computed long
before. In a module whose bodies are resolved they agree wherever execution gets to.

* `Tracks`: a position lies in the body of its frame's function, and the labels of the frame are
  those of the blocks that are open there, one by one (`LabelOf`).
* `Flow.tracks`, `tracks_branch`: an instruction within a function keeps this, whichever way it
  goes, and so does a branch.
* **`labels_mirror_nesting`**: it is so for every frame of every reachable machine. So a branch
  goes where the nesting says, and no position is ever out of range.
-/

namespace WasmDebugger

namespace Nesting

variable {code : Array Instr} {p o e a : Nat}

/-! ## Staying in the body -/

/-- Only the last `end` has no position behind it: it closes nothing. -/
theorem Resolved.succ_lt_size (h : Resolved code) (hp : p < code.size)
    (hne : code[p]? ≠ some .blockEnd ∨ openAt code p ≠ []) : p + 1 < code.size := by
  obtain ⟨last, hsize, hend, hopen⟩ := h.final
  rcases Nat.lt_or_ge (p + 1) code.size with hlt | hge
  · exact hlt
  · have : p = last := by omega
    subst this
    rcases hne with hne | hne
    · exact absurd hend hne
    · exact absurd hopen hne

theorem ClosedAt.lt_size (h : ClosedAt code o e) : e < code.size :=
  (Array.getElem?_eq_some_iff.mp h.1).1

/-- The `end` of a block is not the last. -/
theorem ClosedAt.succ_lt_size (h : ClosedAt code o e) (hr : Resolved code) :
    e + 1 < code.size := by
  refine hr.succ_lt_size h.lt_size (Or.inr fun hnil => ?_)
  have := h.2
  rw [hnil] at this
  exact absurd this (by simp)

theorem ArmOf.succ_lt_size (h : ArmOf code o a) (hr : Resolved code) : a + 1 < code.size := by
  obtain ⟨i, hi, hb⟩ := Option.map_eq_some_iff.mp h.1
  refine hr.succ_lt_size (Array.getElem?_eq_some_iff.mp hi).1 (Or.inl fun hend => ?_)
  rw [hi] at hend
  cases hend
  exact absurd hb (by simp [Instr.bracket])

theorem ClosedAt.openAt_eq (h : ClosedAt code o e) : openAt code e = o :: openAt code o :=
  openAt_of_head? h.2

theorem ArmOf.openAt_succ (h : ArmOf code o a) : openAt code (a + 1) = o :: openAt code o := by
  rw [openAt_parts h.1, openAt_of_head? h.2]

end Nesting

namespace Machine

open Nesting

/-! ## Labels and openers -/

/-- The label that the opener at `o` pushes: a loop is branched to itself and takes nothing, the
others are branched out of and take their result. -/
def LabelOf (code : Array Instr) (o : Nat) (label : Label) : Prop :=
  match code[o]? with
  | some (.block r _) | some (.ifThen r _ _) =>
    label.isLoop = false ∧ label.arity = resultArity r ∧ ClosedAt code o label.continuation
  | some (.loop _ _) => label.isLoop = true ∧ label.arity = 0 ∧ label.continuation = o
  | _ => False

/-- The labels, innermost first, are those of the openers, innermost first. -/
def Mirrors (code : Array Instr) (p : Nat) (labels : List Label) : Prop :=
  List.Forall₂ (LabelOf code) (openAt code p) labels

/-- The position lies in the body of the frame's function, and its labels are those of the blocks
that are open there. -/
def Tracks (module : Module) (p : Position) (frame : Frame) : Prop :=
  p.function = frame.function ∧ ∃ code, module.code? frame.function = some code ∧
    p.instr < code.size ∧ Mirrors code p.instr frame.labels

variable {module : Module} {limits : Limitation} {setup : Setup} {m : Machine} {frame : Frame}
  {callers : List Frame} {i : Instr} {step : Step} {code : Array Instr} {labels : List Label}

theorem bracket_at {p : Nat} (h : code[p]? = some i) :
    code[p]?.map Instr.bracket = some i.bracket := by
  rw [h]
  rfl

/-- A plain instruction is not the last, and leaves the nesting as it is. -/
theorem Mirrors.along {p : Nat} (h : Mirrors code p labels) (hr : Resolved code)
    (hi : code[p]? = some i) (hplain : i.bracket = .plain) :
    p + 1 < code.size ∧ Mirrors code (p + 1) labels := by
  have hb := bracket_at hi
  rw [hplain] at hb
  refine ⟨hr.succ_lt_size (Array.getElem?_eq_some_iff.mp hi).1 (Or.inl fun hend => ?_), ?_⟩
  · rw [hend] at hb
    exact absurd hb (by simp [Instr.bracket])
  · unfold Mirrors at *
    rwa [openAt_plain hb]

/-- **An instruction that stays in its function keeps track**, whichever way it goes. -/
theorem Flow.tracks {labels' : List Label} {q : Nat} (h : Flow m labels i q labels')
    (hr : Resolved code) (hi : code[m.ip.instr]? = some i) (hm : Mirrors code m.ip.instr labels) :
    q < code.size ∧ Mirrors code q labels' := by
  have hb := bracket_at hi
  have hlt := (Array.getElem?_eq_some_iff.mp hi).1
  cases h with
  | along hplain _ => exact hm.along hr hi hplain
  | @block r e =>
    obtain ⟨e', he, hc⟩ := hr.block hi
    cases he
    unfold Mirrors
    rw [openAt_opens hb]
    refine ⟨hr.succ_lt_size hlt (Or.inl (by rw [hi]; simp)), .cons ?_ hm⟩
    unfold LabelOf
    rw [hi]
    exact ⟨rfl, rfl, hc⟩
  | loop =>
    unfold Mirrors
    rw [openAt_opens hb]
    refine ⟨hr.succ_lt_size hlt (Or.inl (by rw [hi]; simp)), .cons ?_ hm⟩
    unfold LabelOf
    rw [hi]
    exact ⟨rfl, rfl, rfl⟩
  | @ifThen r e arm _ ha hp =>
    obtain ⟨⟨e', he, hc⟩, harm⟩ := hr.ifThen hi
    cases he
    have hlabel : LabelOf code m.ip.instr ⟨e, resultArity r, m.stack.size - 1, false⟩ := by
      unfold LabelOf
      rw [hi]
      exact ⟨rfl, rfl, hc⟩
    unfold Mirrors
    -- into the first arm, behind the `else`, or to the `end`
    rcases hp with rfl | ⟨a, hsome, rfl⟩ | ⟨-, rfl⟩
    · rw [openAt_opens hb]
      exact ⟨hr.succ_lt_size hlt (Or.inl (by rw [hi]; simp)), .cons hlabel hm⟩
    · have ha := (harm a).mp hsome
      rw [ha.openAt_succ]
      exact ⟨ha.succ_lt_size hr, .cons hlabel hm⟩
    · rw [hc.openAt_eq]
      exact ⟨hc.lt_size, .cons hlabel hm⟩
  | @pastArm e =>
    obtain ⟨o, e', he, ho, hc⟩ := hr.elseThen hi
    cases he
    unfold Mirrors
    rw [hc.openAt_eq, ← openAt_of_head? ho]
    exact ⟨hc.lt_size, hm⟩
  | close hl =>
    unfold Mirrors at *
    rw [openAt_closes hb]
    subst hl
    cases hopen : openAt code m.ip.instr with
    | nil =>
      rw [hopen] at hm
      cases hm
    | cons o rest =>
      rw [hopen] at hm
      cases hm with
      | cons _ hm => exact ⟨hr.succ_lt_size hlt (Or.inr (by rw [hopen]; simp)), hm⟩

/-! ## Branches -/

theorem LabelOf.loop_or_closed {o : Nat} {label : Label} (h : LabelOf code o label) :
    (∃ r t, code[o]? = some (.loop r t) ∧ label.isLoop = true ∧ label.continuation = o) ∨
      ((∀ r t, code[o]? ≠ some (.loop r t)) ∧ label.isLoop = false ∧
        ClosedAt code o label.continuation) := by
  unfold LabelOf at h
  split at h
  · rename_i hb
    exact Or.inr ⟨fun _ _ => by simp [hb], h.1, h.2.2⟩
  · rename_i hb
    exact Or.inr ⟨fun _ _ => by simp [hb], h.1, h.2.2⟩
  · rename_i hb
    exact Or.inl ⟨_, _, hb, h.1, h.2.2⟩
  · exact absurd h id

theorem Mirrors.label {p d : Nat} {label : Label} (h : Mirrors code p labels)
    (hl : labels[d]? = some label) : ∃ o, (openAt code p)[d]? = some o ∧ LabelOf code o label := by
  unfold Mirrors at h
  obtain ⟨hlt, rfl⟩ := List.getElem?_eq_some_iff.mp hl
  have hlt' : d < (openAt code p).length := by rw [h.length_eq]; exact hlt
  exact ⟨(openAt code p)[d], List.getElem?_eq_getElem hlt', h.get hlt' hlt⟩

/-- **A branch keeps track**: behind a block, and at a loop, the blocks around it are open. -/
theorem Mirrors.branch {p d : Nat} {label : Label} (h : Mirrors code p labels)
    (hr : Resolved code) (hp : p < code.size) (hl : labels[d]? = some label) :
    let target := if label.isLoop then label.continuation else label.continuation + 1
    target < code.size ∧ Mirrors code target (labels.drop (d + 1)) := by
  obtain ⟨o, ho, hlabel⟩ := h.label hl
  obtain ⟨-, hlt, hopen⟩ := openAt_nested ho
  have hdrop : Mirrors code o (labels.drop (d + 1)) := by
    unfold Mirrors at *
    rw [hopen]
    exact List.forall₂_drop _ h
  rcases hlabel.loop_or_closed with ⟨r, t, -, hloop, hcont⟩ | ⟨-, hloop, hclosed⟩
  · rw [hloop, if_pos rfl, hcont]
    exact ⟨Nat.lt_trans hlt hp, hdrop⟩
  · rw [hloop, if_neg (by simp)]
    refine ⟨hclosed.succ_lt_size hr, ?_⟩
    unfold Mirrors at *
    rwa [hclosed.openAt_succ]

/-! ## Machines -/

/-- The frames with the positions they are at: the first has the given one, and each of the others
the return address of the frame that it called. -/
def activationsFrom (p : Position) : List Frame → List (Position × Frame)
  | [] => []
  | frame :: callers => (p, frame) :: activationsFrom frame.returnTo callers

/-- The frames of a machine with their positions, innermost first. -/
def activations (m : Machine) : List (Position × Frame) := activationsFrom m.ip m.frames

/-- Every frame is on track. -/
def OnTrack (module : Module) (m : Machine) : Prop :=
  ∀ a ∈ m.activations, Tracks module a.1 a.2

theorem onTrack_cons (hf : m.frames = frame :: callers) :
    OnTrack module m ↔ Tracks module m.ip frame ∧
      ∀ a ∈ activationsFrom frame.returnTo callers, Tracks module a.1 a.2 := by
  unfold OnTrack activations
  rw [hf]
  exact List.forall_mem_cons

theorem onTrack_nil (hf : m.frames = []) : OnTrack module m := by
  unfold OnTrack activations
  rw [hf]
  exact fun _ h => absurd h List.not_mem_nil

/-- A function is on track at its first instruction. -/
theorem tracks_start (hm : module.BodiesResolved) {f : Nat} {t : UInt32} {locals : List ValueType}
    (hf : module.functions[f]? = some (.defined t locals code)) (vs : Array Value)
    (back : Position) (base : Nat) : Tracks module ⟨f, 0⟩ ⟨f, vs, back, base, []⟩ := by
  have hc : module.code? f = some code := by
    unfold Module.code?
    rw [hf]
    rfl
  obtain ⟨last, hsize, -⟩ := (hm f code hc).final
  refine ⟨rfl, code, hc, ?_, .nil⟩
  show 0 < code.size
  omega

/-- Where a frame on track is, there is an instruction. -/
theorem Tracks.fetch? {p : Position} (h : Tracks module p frame) (setup : Setup)
    (hs : setup.module = module) :
    ∃ code, module.code? frame.function = some code ∧ p.instr < code.size ∧
      Mirrors code p.instr frame.labels ∧ fetch? setup p = code[p.instr]? := by
  obtain ⟨hfun, code, hc, hlt, hmirrors⟩ := h
  refine ⟨code, hc, hlt, hmirrors, ?_⟩
  unfold Machine.fetch?
  rw [hs, hfun, hc]
  rfl

/-- **Every effect keeps all frames on track.** -/
theorem OnTrack.effect (h : OnTrack setup.module m) (hm : setup.module.BodiesResolved)
    (hf : m.frames = frame :: callers) (hi : Machine.fetch? setup m.ip = some i)
    (he : Effect setup m frame callers i step) : OnTrack setup.module step.machine := by
  obtain ⟨htracks, hcallers⟩ := (onTrack_cons hf).mp h
  have hfun := htracks.1
  obtain ⟨code, hc, hlt, hmirrors, hfetch⟩ := htracks.fetch? setup rfl
  rw [hfetch] at hi
  have hr := hm _ _ hc
  cases he with
  | fault _ | threw _ _ _ => exact h
  | inside hstep hflow hframes _ hip _ _ _ =>
    rw [machine_of_onward? hstep, onTrack_cons hframes, hip]
    obtain ⟨hlt', hmirrors'⟩ := hflow.tracks hr hi hmirrors
    exact ⟨⟨hfun, code, hc, hlt', hmirrors'⟩, hcallers⟩
  | branched _ hl _ _ =>
    obtain ⟨hlt', hmirrors'⟩ := hmirrors.branch hr hlt hl
    refine (onTrack_cons rfl).mpr ?_
    exact ⟨⟨hfun, code, hc, hlt', hmirrors'⟩, hcallers⟩
  | entered _ hplain hdefined _ _ _ _ =>
    obtain ⟨hlt', hmirrors'⟩ := hmirrors.along hr hi hplain
    refine (onTrack_cons rfl).mpr ⟨tracks_start hm hdefined _ _ _, ?_⟩
    rw [hf]
    exact List.forall_mem_cons.mpr ⟨⟨hfun, code, hc, hlt', hmirrors'⟩, hcallers⟩
  | returned _ _ _ _ _ => exact hcallers
  | finished _ _ _ _ _ => exact onTrack_nil rfl

theorem onTrack_of_reachable (hm : module.BodiesResolved) (h : Reachable module limits m) :
    OnTrack module m := by
  refine h.invariant (fun _ hidle => onTrack_nil hidle.frames) ?_ ?_
  · intro bridge f m m' he
    cases he with
    | intro hf _ _ =>
      exact (onTrack_cons rfl).mpr
        ⟨tracks_start hm hf _ _ _, fun _ h => absurd h List.not_mem_nil⟩
  · intro bridge m frame callers i step hf htrack hi he
    have hkeep := @OnTrack.effect ⟨module, limits, bridge⟩ m frame callers i step
    exact hkeep htrack hm hf hi he

/-! ## What follows for branches -/

/-- Where a taken branch leads, `d` levels out of the blocks that are open in front of it. -/
inductive Lands (code : Array Instr) (m : Machine) (frame : Frame) (callers : List Frame)
    (d : Nat) : Step → Prop where
  /-- Behind the `end` of a block or an `if`. -/
  | behind {o e : Nat} {m' : Machine} (ho : (openAt code m.ip.instr)[d]? = some o)
      (hb : ∀ r t, code[o]? ≠ some (.loop r t)) (he : ClosedAt code o e)
      (hip : m'.ip = ⟨m.ip.function, e + 1⟩)
      (hframes : m'.frames = { frame with labels := frame.labels.drop (d + 1) } :: callers) :
      Lands code m frame callers d (.next m')
  /-- At the loop itself. -/
  | again {o : Nat} {r : Option ValueType} {t : Option Nat} {m' : Machine}
      (ho : (openAt code m.ip.instr)[d]? = some o) (hb : code[o]? = some (.loop r t))
      (hip : m'.ip = ⟨m.ip.function, o⟩)
      (hframes : m'.frames = { frame with labels := frame.labels.drop (d + 1) } :: callers) :
      Lands code m frame callers d (.next m')
  /-- Out of all blocks, so out of the function and to its caller. -/
  | returns {m' : Machine} (hd : d = (openAt code m.ip.instr).length) (hc : callers ≠ [])
      (hip : m'.ip = frame.returnTo) (hframes : m'.frames = callers) :
      Lands code m frame callers d (.next m')
  /-- The same without a caller. -/
  | finishes {m' : Machine} (hd : d = (openAt code m.ip.instr).length) (hc : callers = [])
      (hframes : m'.frames = []) : Lands code m frame callers d (.finished m')

theorem Leaves.depth_eq {d : Nat} (h : Leaves m labels i) (hd : m.takenDepth? i = some d) :
    d = labels.length := by
  cases h with
  | ret | last _ => exact absurd hd (by simp [takenDepth?])
  | branch hd' =>
    rw [hd'] at hd
    cases hd
    rfl

/-- An instruction that goes through blocks in order is no branch. -/
theorem Flow.not_taken {labels' : List Label} {q : Nat} (h : Flow m labels i q labels') :
    m.takenDepth? i = none := by
  cases h with
  | along _ hd => exact hd
  | block | loop | ifThen _ _ | pastArm | close _ => rfl

theorem lands_of_effect {d : Nat} (hmirrors : Mirrors code m.ip.instr frame.labels)
    (hd : m.takenDepth? i = some d) (he : Effect setup m frame callers i step)
    (hn : ∀ f m', step ≠ .fault f m') : Lands code m frame callers d step := by
  have hlen : (openAt code m.ip.instr).length = frame.labels.length := hmirrors.length_eq
  cases he with
  | fault f => exact absurd rfl (hn f m)
  | threw _ hc _ | entered hc _ _ _ _ _ _ =>
    rw [takenDepth?_of_callee? hc] at hd
    exact absurd hd (by simp)
  | inside _ hflow _ _ _ _ _ _ =>
    rw [hflow.not_taken] at hd
    exact absurd hd (by simp)
  | @branched depth label carried hd' hl _ _ =>
    rw [hd] at hd'
    cases hd'
    obtain ⟨o, ho, hlabel⟩ := hmirrors.label hl
    rcases hlabel.loop_or_closed with ⟨r, t, hb, hloop, hcont⟩ | ⟨hb, hloop, hclosed⟩
    · exact .again ho hb (by rw [hloop, if_pos rfl, hcont]) rfl
    · exact .behind ho hb hclosed (by rw [hloop, if_neg (by simp)]) rfl
  | returned hi hc _ _ _ =>
    exact .returns ((hi.depth_eq hd).trans hlen.symm) (by rw [hc]; simp) rfl rfl
  | finished hi hc _ _ _ => exact .finishes ((hi.depth_eq hd).trans hlen.symm) hc rfl

/-- **The labels mirror the nesting, and control stays in the body.** Let a module have been read
or put together part by part, from bodies in which no `if` names an arm beforehand, and let a
machine be reachable.

* Every frame is on track: its position names an instruction of its function, and its labels are
  those of the blocks, loops and ifs that are open there.
* A taken branch that does not fault goes behind the block or to the loop that is so many levels
  out, or out of the function.
* The position is never out of range. -/
theorem labels_mirror_nesting
    (hm : (∃ input, Module.ofBytes? input = .ok module) ∨ module.Assembled)
    (hr : Reachable module limits m) :
    (∀ p frame, (p, frame) ∈ m.activations → Tracks module p frame) ∧
    (∀ bridge watch frame callers i d, m.frames = frame :: callers →
      Machine.fetch? ⟨module, limits, bridge⟩ m.ip = some i → m.takenDepth? i = some d →
      (∀ f m', m.dispatch ⟨module, limits, bridge⟩ watch ≠ .fault f m') →
      ∃ code, module.code? frame.function = some code ∧
        Lands code m frame callers d (m.dispatch ⟨module, limits, bridge⟩ watch)) ∧
    (∀ bridge, m.frames ≠ [] → Machine.fetch? ⟨module, limits, bridge⟩ m.ip ≠ none) := by
  have hbodies : module.BodiesResolved := by
    rcases hm with ⟨input, hinput⟩ | hassembled
    · exact bodiesResolved_of_ofBytes? hinput
    · exact hassembled.bodiesResolved
  have htrack := onTrack_of_reachable hbodies hr
  refine ⟨fun p frame ha => htrack (p, frame) ha, ?_, ?_⟩
  · intro bridge watch frame callers i d hf hi hd hn
    obtain ⟨code, hc, -, hmirrors, -⟩ :=
      ((onTrack_cons hf).mp htrack).1.fetch? ⟨module, limits, bridge⟩ rfl
    refine ⟨code, hc, ?_⟩
    have hdispatch : m.dispatch ⟨module, limits, bridge⟩ watch =
        m.execute ⟨module, limits, bridge⟩ watch i := by
      unfold dispatch
      rw [hf, hi]
    rw [hdispatch] at hn ⊢
    exact lands_of_effect hmirrors hd (execute_effect hf) hn
  · intro bridge hf
    cases hframes : m.frames with
    | nil => exact absurd hframes hf
    | cons frame callers =>
      obtain ⟨code, -, hlt, -, hfetch⟩ :=
        ((onTrack_cons hframes).mp htrack).1.fetch? ⟨module, limits, bridge⟩ rfl
      rw [hfetch, Array.getElem?_eq_getElem hlt]
      simp

/-- A loop in a block, with a branch out of both. -/
def nestedBody : List Instr :=
  [.block none none, .loop none none, .const (.i32 1), .brIf 1, .blockEnd, .blockEnd]

/-- The module with that body alone. -/
def nested : Setup where
  module :=
    { types := #[⟨[], []⟩]
      functions := #[.defined 0 [] #[.block none (some 5), .loop none (some 4), .const (.i32 1),
        .brIf 1, .blockEnd, .blockEnd, .blockEnd]] }
  limits := {}
  bridge := .unavailable

theorem nested_assembled : nested.module.Assembled := by
  have h : Builder.after {} (.addFunction ⟨[], []⟩ [] nestedBody) = ⟨nested.module, true⟩ := by
    unfold Builder.after Builder.perform Builder.addFunction Module.addType
    simp only [Array.findIdx?_empty]
    rfl
  have hunarmed : Nesting.Unarmed nestedBody := Nesting.unarmed_of_bare (by decide)
  exact ⟨_, .call .fresh (.addFunction ⟨[], []⟩ [] nestedBody) hunarmed, congrArg Builder.module h⟩

/-- The only frame in front of the branch, with the labels of the loop and of the block. -/
def nestedFrame : Frame := ⟨0, #[], ⟨0, 0⟩, 0, [⟨1, 0, 0, true⟩, ⟨5, 0, 0, false⟩]⟩

theorem labels_mirror_nesting_nested :
    Tracks nested.module (firstCall nested 3).ip nestedFrame ∧
      (∃ code, nested.module.code? nestedFrame.function = some code ∧
        Lands code (firstCall nested 3) nestedFrame [] 1
          ((firstCall nested 3).dispatch nested {})) ∧
      (firstCall nested 4).ip = ⟨0, 6⟩ ∧
      Machine.fetch? nested (firstCall nested 3).ip ≠ none := by
  have hreachable : Reachable nested.module nested.limits (firstCall nested 3) :=
    reachable_firstCall rfl 3
  have hframes : (firstCall nested 3).frames = [nestedFrame] := rfl
  obtain ⟨htracks, hlands, hfetch⟩ :=
    labels_mirror_nesting (Or.inr nested_assembled) hreachable
  refine ⟨htracks _ _ (List.mem_singleton.mpr rfl), ?_, rfl, hfetch .unavailable (by decide)⟩
  exact hlands .unavailable {} _ _ (.brIf 1) 1 hframes rfl rfl fun _ _ h => by cases h

end Machine

end WasmDebugger
