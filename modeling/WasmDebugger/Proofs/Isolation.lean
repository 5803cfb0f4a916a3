import Mathlib.Logic.Relation
import WasmDebugger.Proofs.Reachable

/-!
# Calls are isolated

Functions share one operand stack and are not validated. What keeps a callee from its caller's
operands is the floor and the heights of labels.

* `Layered`: the floor is the base of the innermost frame, bases grow inwards, and no label lies
  below the base of its frame. Every reachable machine is layered (`layered_of_reachable`).
* `Within`: as long as a call has not returned, the frames under it are untouched, and so are the
  operands under its arguments.
* **`call_isolated`**: when it has returned, its operands have given way to its results, and
  nothing else has changed on either stack.
-/

namespace WasmDebugger.Machine

open OperandStack (Shift)

/-! ## Layers -/

/-- The base of the innermost frame. -/
def innermostBase : List Frame → Nat
  | [] => 0
  | frame :: _ => frame.base

/-- Bases grow inwards, and the labels of a frame lie above its base. -/
def Nested : List Frame → Prop
  | [] => True
  | frame :: callers =>
    innermostBase callers ≤ frame.base ∧ (∀ label ∈ frame.labels, frame.base ≤ label.height) ∧
      Nested callers

/-- The floor keeps the innermost frame to its own operands. -/
structure Layered (m : Machine) : Prop where
  floor : m.stack.floor = innermostBase m.frames
  room : m.stack.floor ≤ m.stack.size
  nested : Nested m.frames

variable {module : Module} {limits : Limitation} {setup : Setup} {m : Machine} {frame : Frame}
  {callers : List Frame} {i : Instr} {step : Step}

/-- A frame further out has a base that is no higher. -/
theorem Nested.base_le {inner outer : List Frame} (h : Nested (inner ++ frame :: outer)) :
    frame.base ≤ innermostBase (inner ++ frame :: outer) := by
  induction inner with
  | nil => exact Nat.le_refl _
  | cons first inner ih => exact Nat.le_trans (ih h.2.2) h.1

theorem layered_of_idle (h : m.Idle) : Layered m where
  floor := by rw [h.floor, h.frames]; rfl
  room := by rw [h.floor]; exact Nat.zero_le _
  nested := by rw [h.frames]; exact trivial

theorem Layered.floor_eq (h : Layered m) (hf : m.frames = frame :: callers) :
    m.stack.floor = frame.base := by
  rw [h.floor, hf]
  rfl

/-- New labels start at the top of the stack, so above the base. -/
theorem Flow.heights {labels labels' : List Label} {p base : Nat} (h : Flow m labels i p labels')
    (hb : m.stack.floor = base) (hroom : base ≤ m.stack.size)
    (hl : ∀ label ∈ labels, base ≤ label.height) : ∀ label ∈ labels', base ≤ label.height := by
  cases h with
  | along _ _ | pastArm => exact hl
  | block | loop => exact List.forall_mem_cons.mpr ⟨hroom, hl⟩
  | ifThen ha _ =>
    refine List.forall_mem_cons.mpr ⟨?_, hl⟩
    unfold OperandStack.available at ha
    simp only
    omega
  | close h =>
    rw [h] at hl
    exact (List.forall_mem_cons.mp hl).2

/-- A branch or a return cuts the stack at a height that is not below the floor. -/
theorem shift_cut_decided {height : Nat} {vs : List Value} (ha : i.deciding ≤ m.stack.available)
    (hh : m.stack.floor ≤ height) (hs : height + vs.length ≤ (m.decided i).size) :
    m.stack.Shift (((m.decided i).truncate height).restoreAll vs) :=
  (OperandStack.shift_pop ha).trans (OperandStack.shift_cut hh hs)

/-- Operands that were found lie above the floor, beside those that decide where to go. -/
theorem operands_above {types : List ValueType} {operands : List Value}
    (hroom : m.stack.floor ≤ m.stack.size) (ha : i.deciding ≤ m.stack.available)
    (hr : (m.decided i).typed? types = some operands) :
    m.stack.floor + operands.length ≤ (m.decided i).size := by
  have hn := (OperandStack.values_of_typed? hr).1
  rw [← OperandStack.length_of_typed? hr] at hn
  unfold OperandStack.available decided at *
  simp only [OperandStack.size_pop, OperandStack.floor_pop] at *
  omega

/-- **Every effect keeps the layers.** -/
theorem Layered.effect (h : Layered m) (hf : m.frames = frame :: callers)
    (he : Effect setup m frame callers i step) : Layered step.machine := by
  have hfloor := h.floor_eq hf
  have hroom := h.room
  obtain ⟨hbase, hlabels, hcallers⟩ : Nested (frame :: callers) := hf ▸ h.nested
  cases he with
  | fault _ => exact h
  | threw _ _ hs => exact ⟨hs.floor.trans h.floor, hs.floor_le_size hroom, h.nested⟩
  | inside hstep hflow hframes _ _ hstack _ _ =>
    rw [machine_of_onward? hstep]
    refine ⟨?_, hstack.floor_le_size hroom, ?_⟩
    · rw [hstack.floor, hframes]
      exact hfloor
    · rw [hframes]
      exact ⟨hbase, hflow.heights hfloor (hfloor ▸ hroom) hlabels, hcallers⟩
  | branched _ hl ha hs =>
    have hheight := hlabels _ (List.mem_of_getElem? hl)
    have hshift := shift_cut_decided ha (hfloor ▸ hheight) hs
    exact ⟨hshift.floor.trans hfloor, hshift.floor_le_size hroom,
      hbase, fun label hm => hlabels label (List.mem_of_mem_drop hm), hcallers⟩
  | @entered _ _ _ _ _ args _ _ _ _ _ ha hargs =>
    have hn := operands_above hroom ha hargs
    have hnew : innermostBase m.frames ≤ (m.decided i).size - args.length := by
      rw [← h.floor]
      exact Nat.le_sub_of_add_le hn
    exact ⟨rfl, Nat.le_refl _, hnew, fun _ hm => absurd hm List.not_mem_nil, h.nested⟩
  | returned _ hc _ ha hr =>
    have hn := operands_above hroom ha hr
    have hshift := shift_cut_decided ha (Nat.le_refl _) hn
    have hsize := hshift.floor_le_size hroom
    rw [hshift.floor, hfloor] at hsize
    refine ⟨by rw [hc]; rfl, ?_, hcallers⟩
    rw [hc] at hbase
    exact Nat.le_trans hbase hsize
  | finished _ _ _ _ _ => exact ⟨rfl, Nat.zero_le _, trivial⟩

theorem layered_of_reachable (h : Reachable module limits m) : Layered m := by
  refine h.invariant (fun _ => layered_of_idle) ?_ (fun _ _ _ _ _ _ hf hm _ he => hm.effect hf he)
  intro bridge f m m' he
  cases he with
  | intro _ _ _ =>
    exact ⟨rfl, Nat.le_refl _, Nat.zero_le _, fun _ hm => absurd hm List.not_mem_nil, trivial⟩

/-! ## A call that has not returned -/

/-- A frame with this function, base and return address stands on `outer`. -/
def Above (outer : List Frame) (f base : Nat) (back : Position) (frames : List Frame) : Prop :=
  ∃ inner g, frames = inner ++ g :: outer ∧ g.function = f ∧ g.base = base ∧ g.returnTo = back

variable {outer frames : List Frame} {f base : Nat} {back : Position}

theorem Above.length_lt (h : Above outer f base back frames) : outer.length < frames.length := by
  obtain ⟨inner, g, hf, -⟩ := h
  rw [hf, List.length_append, List.length_cons]
  omega

theorem Above.base_le (h : Above outer f base back frames) (hn : Nested frames) :
    base ≤ innermostBase frames := by
  obtain ⟨inner, g, hf, -, hb, -⟩ := h
  subst hf hb
  exact hn.base_le

theorem Above.push (h : Above outer f base back frames) (frame : Frame) :
    Above outer f base back (frame :: frames) := by
  obtain ⟨inner, g, hf, hg⟩ := h
  exact ⟨frame :: inner, g, by rw [hf]; rfl, hg⟩

/-- Popping a frame leaves it there, unless it was the one. -/
theorem Above.pop (h : Above outer f base back (frame :: callers)) :
    Above outer f base back callers ∨
      callers = outer ∧ frame.function = f ∧ frame.base = base ∧ frame.returnTo = back := by
  obtain ⟨inner, g, hf, hg⟩ := h
  cases inner with
  | nil =>
    cases hf
    exact Or.inr ⟨rfl, hg⟩
  | cons first inner =>
    cases hf
    exact Or.inl ⟨inner, g, rfl, hg⟩

/-- Locals and labels do not matter. -/
theorem Above.update {frame' : Frame} (h : Above outer f base back (frame :: callers))
    (hf : frame'.function = frame.function) (hb : frame'.base = frame.base)
    (hr : frame'.returnTo = frame.returnTo) : Above outer f base back (frame' :: callers) := by
  rcases h.pop with h | ⟨rfl, h1, h2, h3⟩
  · exact h.push frame'
  · exact ⟨[], frame', rfl, hf.trans h1, hb.trans h2, hr.trans h3⟩

/-- A call of `f` from `s` has not returned, and `rest` still lies under it. -/
structure Within (s : Machine) (f : Nat) (rest : List Value) (m : Machine) : Prop where
  frames : Above s.frames f rest.length ⟨s.ip.function, s.ip.instr + 1⟩ m.frames
  below : rest <:+ m.stack.values

/-- It has returned, with the results that it declares in the place of its operands. -/
structure Returned (module : Module) (s : Machine) (f : Nat) (rest : List Value) (m : Machine) :
    Prop where
  frames : m.frames = s.frames
  ip : m.ip = ⟨s.ip.function, s.ip.instr + 1⟩
  results : ∃ (type : FuncType) (results : List Value), module.funcType? f = some type ∧
    results.map Value.type = type.results ∧ m.stack.values = results.reverse ++ rest

variable {s : Machine} {rest : List Value}

/-- What lies under a call outlasts what happens above the floor. -/
theorem Within.suffix {t : OperandStack} (h : Within s f rest m) (hm : Layered m)
    (hs : m.stack.Shift t) : rest <:+ t.values := by
  refine hs.suffix h.below ?_ hm.room
  rw [hm.floor]
  exact h.frames.base_le hm.nested

/-- **An effect within a call stays within it or ends it.** -/
theorem Within.effect (h : Within s f rest m) (hm : Layered m) (hs : s.frames ≠ [])
    (hf : m.frames = frame :: callers) (he : Effect setup m frame callers i step) :
    Within s f rest step.machine ∨ Returned setup.module s f rest step.machine := by
  have hfloor := hm.floor_eq hf
  have habove : Above s.frames f rest.length _ (frame :: callers) := hf ▸ h.frames
  cases he with
  | fault _ => exact Or.inl h
  | threw _ _ hs => exact Or.inl ⟨h.frames, h.suffix hm hs⟩
  | inside hstep _ hframes _ _ hstack _ _ =>
    rw [machine_of_onward? hstep]
    exact Or.inl ⟨by rw [hframes]; exact habove.update rfl rfl rfl, h.suffix hm hstack⟩
  | branched _ hl ha hsize =>
    have hheight : frame.base ≤ _ := (hf ▸ hm.nested : Nested (frame :: callers)).2.1 _
      (List.mem_of_getElem? hl)
    exact Or.inl ⟨habove.update rfl rfl rfl,
      h.suffix hm (shift_cut_decided ha (hfloor ▸ hheight) hsize)⟩
  | entered _ _ _ _ _ ha hargs =>
    have hn := (OperandStack.values_of_typed? hargs).1
    rw [← OperandStack.length_of_typed? hargs] at hn
    have hrest := h.suffix hm ((OperandStack.shift_pop ha).trans (OperandStack.shift_pop hn))
    exact Or.inl ⟨h.frames.push _, hrest⟩
  | @returned _ _ type results _ hc ht ha hr =>
    have hn := operands_above hm.room ha hr
    -- a frame above the call's own returns within the call
    rcases habove.pop with h' | ⟨hcallers, rfl, hb, hback⟩
    · have hrest := h.suffix hm (shift_cut_decided ha (Nat.le_of_eq hfloor) (hfloor ▸ hn))
      exact Or.inl ⟨h', hrest⟩
    · refine Or.inr ⟨hcallers, hback, type, results, ht,
        (OperandStack.values_of_typed? hr).2.1, ?_⟩
      have hrest := h.suffix hm (OperandStack.shift_pop ha)
      show (m.handedBack frame i results).values = _
      unfold handedBack
      rw [OperandStack.values_restoreAll, hb]
      exact congrArg (results.reverse ++ ·) (OperandStack.values_truncate hrest)
  | finished _ hc _ _ _ =>
    have hlt := habove.length_lt
    rw [hc, List.length_singleton, Nat.lt_one_iff, List.length_eq_zero_iff] at hlt
    exact absurd hlt hs

/-! ## A call from its start to its return -/

/-- One instruction, whatever it comes to. Host and registry may be any. -/
def Dispatches (module : Module) (limits : Limitation) (m m' : Machine) : Prop :=
  ∃ bridge watch, (m.dispatch ⟨module, limits, bridge⟩ watch).machine = m'

/-- Only a call makes the stack of frames higher, and it leaves what lies under its operands. -/
theorem within_of_effect (hs : Layered s) (hf : s.frames = frame :: callers)
    (he : Effect setup s frame callers i step) (hd : step.machine.depth = s.depth + 1) :
    ∃ f type operands rest, s.callee? i = some f ∧ setup.module.funcType? f = some type ∧
      s.stack.values = operands ++ rest ∧ operands.length = i.deciding + type.params.length ∧
      (operands.drop i.deciding).reverse.map Value.type = type.params ∧
      Within s f rest step.machine := by
  have hdepth : s.depth = callers.length + 1 := by
    unfold depth
    rw [hf]
    rfl
  cases he with
  | fault _ => exact absurd (show s.depth = s.depth + 1 from hd) (by omega)
  | threw _ _ _ => exact absurd (show s.depth = s.depth + 1 from hd) (by omega)
  | inside hstep _ hframes _ _ _ _ _ =>
    rw [machine_of_onward? hstep] at hd
    have : callers.length + 1 = s.depth + 1 := by
      unfold depth at hd ⊢
      rw [hframes] at hd
      exact hd
    omega
  | branched _ _ _ _ =>
    have : callers.length + 1 = s.depth + 1 := hd
    omega
  | returned _ _ _ _ _ =>
    have : callers.length = s.depth + 1 := hd
    omega
  | finished _ _ _ _ _ => exact absurd (show 0 = s.depth + 1 from hd) (by omega)
  | @entered f _ locals _ type args hc _ _ ht _ ha hargs =>
    obtain ⟨hn, htypes, hvalues⟩ := OperandStack.values_of_typed? hargs
    have hroom := operands_above hs.room ha hargs
    have hlen := OperandStack.length_of_typed? hargs
    have hsize : i.deciding ≤ s.stack.size := Nat.le_trans ha OperandStack.available_le
    refine ⟨f, type, s.stack.values.take i.deciding ++ args.reverse,
      (s.decided i).values.drop type.params.length, hc, ht, ?_, ?_, ?_, ?_, ?_⟩
    · rw [List.append_assoc, ← hvalues]
      exact (List.take_append_drop _ _).symm
    · rw [List.length_append, List.length_take, List.length_reverse, hlen, ← s.stack.size_eq]
      omega
    · have htake : (s.stack.values.take i.deciding).length = i.deciding := by
        rw [List.length_take, ← s.stack.size_eq]
        omega
      rw [List.drop_left' htake, List.reverse_reverse]
      exact htypes
    · refine ⟨[], s.newFrame f args locals _, rfl, rfl, ?_, rfl⟩
      show (s.decided i).size - args.length = _
      rw [List.length_drop, ← (s.decided i).size_eq, hlen]
    · have hdrop : (s.decided i).values.drop args.length =
          (s.decided i).values.drop type.params.length := by rw [hlen]
      exact hdrop ▸ List.suffix_refl _

/-- On the way from a call to its return, machines are within the call. -/
theorem within_or_returned {s₁ t : Machine} (hs : s.frames ≠ []) (hlayered : Layered s₁)
    (hstart : Within s f rest s₁)
    (hpath : Relation.ReflTransGen
      (fun a b => a.depth ≠ s.depth ∧ Dispatches module limits a b) s₁ t) :
    Layered t ∧ (Within s f rest t ∨ Returned module s f rest t) := by
  induction hpath with
  | refl => exact ⟨hlayered, Or.inl hstart⟩
  | @tail a b _ hab ih =>
    obtain ⟨hdepth, bridge, watch, rfl⟩ := hab
    obtain ⟨ha, hwithin | hreturned⟩ := ih
    · rcases dispatch_cases ⟨module, limits, bridge⟩ watch a with
        ⟨-, h⟩ | ⟨-, h⟩ | ⟨frame, callers, i, hf, -, he⟩
      · rw [h]
        exact ⟨ha, Or.inl hwithin⟩
      · rw [h]
        exact ⟨ha, Or.inl hwithin⟩
      · exact ⟨ha.effect hf he, hwithin.effect ha hs hf he⟩
    · exact absurd (congrArg List.length hreturned.frames) hdepth

/-- **Calls are isolated.** Let the next instruction of a reachable machine `s` be a call that
pushes a frame, and let `t` be the first machine after it that is as deep as `s`, whatever has
happened in between. Then the operands of the call (its arguments, under the table index of an
indirect one) have given way to one value for each declared result of the callee; execution goes
on behind the call; and the frames are those of `s`. -/
theorem call_isolated {bridge : Bridge} {watch : Breakpoints} {t : Machine}
    (hs : Reachable module limits s) (hi : fetch? ⟨module, limits, bridge⟩ s.ip = some i)
    (hcall : (s.dispatch ⟨module, limits, bridge⟩ watch).machine.depth = s.depth + 1)
    (hpath : Relation.ReflTransGen
      (fun a b => a.depth ≠ s.depth ∧ Dispatches module limits a b)
      (s.dispatch ⟨module, limits, bridge⟩ watch).machine t)
    (ht : t.depth = s.depth) :
    ∃ (f : Nat) (type : FuncType) (operands rest results : List Value),
      s.callee? i = some f ∧ module.funcType? f = some type ∧
      s.stack.values = operands ++ rest ∧ operands.length = i.deciding + type.params.length ∧
      (operands.drop i.deciding).reverse.map Value.type = type.params ∧
      results.map Value.type = type.results ∧ t.stack.values = results.reverse ++ rest ∧
      t.stack.floor = s.stack.floor ∧ t.ip = ⟨s.ip.function, s.ip.instr + 1⟩ ∧
      t.frames = s.frames := by
  have hlayered := layered_of_reachable hs
  rcases dispatch_cases ⟨module, limits, bridge⟩ watch s with
    ⟨-, h⟩ | ⟨-, h⟩ | ⟨frame, callers, i', hf, hi', he⟩
  · rw [h] at hcall
    exact absurd hcall (by simp [Step.machine])
  · rw [h] at hcall
    exact absurd hcall (by simp [Step.machine])
  · rw [hi] at hi'
    cases hi'
    obtain ⟨f, type, operands, rest, hc, htype, hvalues, hlen, hargs, hwithin⟩ :=
      within_of_effect hlayered hf he hcall
    obtain ⟨hlayered', h | h⟩ := within_or_returned (by rw [hf]; simp) (hlayered.effect hf he)
      hwithin hpath
    · have hlt : s.depth < t.depth := h.frames.length_lt
      omega
    · obtain ⟨type', results, htype', hresults, hleft⟩ := h.results
      rw [htype] at htype'
      cases htype'
      refine ⟨f, type, operands, rest, results, hc, htype, hvalues, hlen, hargs, hresults, hleft,
        ?_, h.ip, h.frames⟩
      rw [hlayered'.floor, hlayered.floor, h.frames]

/-- A function that calls another, which leaves an operand behind. -/
def littering : Setup where
  module :=
    { types := #[⟨[], []⟩, ⟨[.i32], [.i32]⟩]
      functions := #[.defined 0 [] #[.const (.i32 9), .const (.i32 5), .call 1, .blockEnd],
        .defined 1 [] #[.const (.i32 1), .const (.i32 2), .ret, .blockEnd]] }
  limits := {}
  bridge := .unavailable

theorem call_isolated_littering :
    ∃ (f : Nat) (type : FuncType) (operands rest results : List Value),
      (firstCall littering 2).callee? (.call 1) = some f ∧
      littering.module.funcType? f = some type ∧
      (firstCall littering 2).stack.values = operands ++ rest ∧ operands.length = 1 ∧
      results.map Value.type = type.results ∧
      (firstCall littering 6).stack.values = results.reverse ++ rest ∧
      (firstCall littering 6).stack.values = [.i32 2, .i32 9] ∧
      (firstCall littering 6).frames = (firstCall littering 2).frames := by
  have hreachable : Reachable littering.module littering.limits (firstCall littering 2) :=
    reachable_firstCall rfl 2
  have hpath : Relation.ReflTransGen
      (fun a b => a.depth ≠ (firstCall littering 2).depth ∧
        Dispatches littering.module littering.limits a b)
      (firstCall littering 3) (firstCall littering 6) :=
    .head ⟨by decide, .unavailable, {}, rfl⟩ (.head ⟨by decide, .unavailable, {}, rfl⟩
      (.single ⟨by decide, .unavailable, {}, rfl⟩))
  obtain ⟨f, type, operands, rest, results, hf, ht, hs, hn, -, hr, hv, -, -, hframes⟩ :=
    call_isolated hreachable (show fetch? littering _ = some (.call 1) from rfl) rfl hpath rfl
  have htype : type.params.length = 1 := by
    cases hf
    cases ht
    rfl
  exact ⟨f, type, operands, rest, results, hf, ht, hs, hn.trans (by rw [htype]; rfl), hr, hv, rfl,
    hframes⟩

end WasmDebugger.Machine
