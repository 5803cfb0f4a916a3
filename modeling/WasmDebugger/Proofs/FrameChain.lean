import Mathlib.Data.List.Chain
import WasmDebugger.Proofs.Isolation

/-!
# The chain of frames

What holds of frames and operands after every operation, and at every instruction in between.

* `Operated`: the executions that a user of a module can have.
* `Limited`: frames and operands keep to the limits, and nothing lies under the outermost frame.
* `Linked`: every frame runs a function with a body; the position lies in that of the innermost
  one, and every other frame is to be returned to behind a call.
* **`structured_of_operated`**: every execution is limited, layered and linked.
-/

namespace WasmDebugger

/-- Only calls push a frame. -/
def Instr.isCall : Instr → Bool
  | .call _ | .callIndirect _ => true
  | _ => false

namespace Machine

open Execution (enterEntry setEntryReturn zeroArgs callError?)
open OperandStack (Shift)

variable {module : Module} {limits : Limitation} {setup : Setup} {m : Machine} {frame : Frame}
  {callers : List Frame} {i : Instr} {step : Step}

/-! ## Limits -/

/-- Neither stack has outgrown its limit, and the outermost frame starts at the bottom. -/
structure Limited (limits : Limitation) (m : Machine) : Prop where
  limit : m.stack.limit = limits.maxValueStack
  size : m.stack.size ≤ limits.maxValueStack
  depth : m.depth ≤ limits.maxCallDepth
  outermost : ∀ frame ∈ m.frames.getLast?, frame.base = 0

theorem limited_of_idle (hf : m.frames = []) (hl : m.stack.limit = limits.maxValueStack)
    (hs : m.stack.size ≤ limits.maxValueStack) : Limited limits m where
  limit := hl
  size := hs
  depth := by
    unfold depth
    rw [hf]
    exact Nat.zero_le _
  outermost := by simp [hf]

/-- What happens above the floor keeps to the limit. -/
theorem Limited.shift {s : OperandStack} (h : Limited limits m) (hs : m.stack.Shift s) :
    s.limit = limits.maxValueStack ∧ s.size ≤ limits.maxValueStack := by
  have hsize := h.size
  have hbounded := hs.bounded
  rw [h.limit] at hbounded
  exact ⟨hs.limit.trans h.limit, by omega⟩

/-- The outermost frame is not replaced by one with another base. -/
theorem outermost_update {frame' : Frame} (h : ∀ g ∈ (frame :: callers).getLast?, g.base = 0)
    (hb : frame'.base = frame.base) :
    ∀ g ∈ (frame' :: callers).getLast?, g.base = 0 := by
  cases callers with
  | nil =>
    intro g hg
    cases hg
    exact hb.trans (h frame rfl)
  | cons caller outer => exact h

theorem outermost_push (hf : m.frames = frame :: callers)
    (h : ∀ g ∈ m.frames.getLast?, g.base = 0) (new : Frame) :
    ∀ g ∈ (new :: m.frames).getLast?, g.base = 0 := by
  rw [hf] at h ⊢
  exact h

/-- **Every effect keeps to the limits**: only a call makes the stack of frames higher, and it
looks at the limit first. -/
theorem Limited.effect (h : Limited setup.limits m) (hm : Layered m)
    (hf : m.frames = frame :: callers) (he : Effect setup m frame callers i step) :
    Limited setup.limits step.machine := by
  have hfloor := hm.floor_eq hf
  have hdepth : callers.length + 1 ≤ setup.limits.maxCallDepth := by
    have := h.depth
    unfold Machine.depth at this
    rwa [hf] at this
  have houter : ∀ g ∈ (frame :: callers).getLast?, g.base = 0 := hf ▸ h.outermost
  cases he with
  | fault _ => exact h
  | threw _ _ hs =>
    obtain ⟨hlimit, hsize⟩ := h.shift hs
    exact ⟨hlimit, hsize, h.depth, h.outermost⟩
  | @inside _ m' _ _ _ hstep _ hframes _ _ hstack _ _ =>
    obtain ⟨hlimit, hsize⟩ := h.shift hstack
    rw [machine_of_onward? hstep]
    refine ⟨hlimit, hsize, ?_, ?_⟩
    · unfold Machine.depth
      rw [hframes]
      exact hdepth
    · rw [hframes]
      exact outermost_update houter rfl
  | branched _ hl ha hs =>
    have hheight : frame.base ≤ _ := (hf ▸ hm.nested : Nested (frame :: callers)).2.1 _
      (List.mem_of_getElem? hl)
    obtain ⟨hlimit, hsize⟩ := h.shift (shift_cut_decided ha (hfloor ▸ hheight) hs)
    exact ⟨hlimit, hsize, hdepth, outermost_update houter rfl⟩
  | @entered _ _ _ _ _ args _ _ _ _ hd ha hargs =>
    have hn := (OperandStack.values_of_typed? hargs).1
    rw [← OperandStack.length_of_typed? hargs] at hn
    obtain ⟨hlimit, hsize⟩ :=
      h.shift ((OperandStack.shift_pop ha).trans (OperandStack.shift_pop hn))
    exact ⟨hlimit, hsize, hd, outermost_push hf h.outermost _⟩
  | returned _ hc _ ha hr =>
    obtain ⟨hlimit, hsize⟩ := h.shift
      (shift_cut_decided ha (Nat.le_of_eq hfloor) (hfloor ▸ operands_above hm.room ha hr))
    refine ⟨hlimit, hsize, Nat.le_of_succ_le hdepth, ?_⟩
    rw [hc] at houter ⊢
    exact houter
  | finished _ _ _ ha hr =>
    obtain ⟨hlimit, hsize⟩ := h.shift
      (shift_cut_decided ha (Nat.le_of_eq hfloor) (hfloor ▸ operands_above hm.room ha hr))
    exact limited_of_idle rfl hlimit hsize

/-- **Entering a function keeps to the limits**: its frame takes all arguments off the stack, so
it starts at the bottom. -/
theorem limited_enterEntry {f : Nat} {args : List Value}
    (hm : m.stack.limit = setup.limits.maxValueStack)
    (hargs : ∀ type, setup.module.funcType? f = some type → args.length = type.params.length) :
    Limited setup.limits (enterEntry setup f args m).machine := by
  have hbounded : ∀ {s : OperandStack}, m.stack.clear.Shift s →
      s.limit = setup.limits.maxValueStack ∧ s.size ≤ setup.limits.maxValueStack := by
    intro s hs
    have hlimit : s.limit = m.stack.limit := hs.limit
    have hsize : s.size ≤ max 0 m.stack.limit := hs.bounded
    rw [hm] at hlimit hsize
    exact ⟨hlimit, by omega⟩
  unfold enterEntry
  obtain ⟨s, hs, h | ⟨h, hvalues⟩⟩ :=
    pushArgs_cases { Execution.reset m with ip := ⟨f, 0⟩ } args
  all_goals
    have hs : m.stack.clear.Shift s := hs
    rw [h]
    simp only
  · exact limited_of_idle rfl (hbounded hs).1 (hbounded hs).2
  · have hidle : Limited setup.limits
        (({ Execution.reset m with ip := ⟨f, 0⟩ } : Machine).setStack s) :=
      limited_of_idle rfl (hbounded hs).1 (hbounded hs).2
    split
    · rcases callImport_cases setup f ({ Execution.reset m with ip := ⟨f, 0⟩ }.setStack s) with
        ⟨fault, hc⟩ | ⟨message, hc⟩ | ⟨m', hc, -, hframes, -, hstack, -⟩
      · rw [hc]
        exact hidle
      · rw [hc]
        exact hidle
      · rw [hc]
        obtain ⟨hlimit, hsize⟩ := hidle.shift hstack
        exact limited_of_idle hframes hlimit hsize
    · rename_i hnot
      rcases call_cases setup f ({ Execution.reset m with ip := ⟨f, 0⟩ }.setStack s) with
        ⟨fault, hc⟩ | ⟨message, hc⟩ | ⟨_, -, ⟨_, _, himported⟩, -⟩ |
        ⟨t, locals, code, type, taken, -, ht, hdepth, htaken, hc⟩
      · rw [hc]
        exact hidle
      · rw [hc]
        exact hidle
      · exact absurd himported (hnot _ _)
      · rw [hc]
        have hn := (OperandStack.values_of_typed? htaken).1
        have htypes := OperandStack.length_of_typed? htaken
        have hstack : s.size = args.length := by
          rw [s.size_eq, hvalues]
          simp [Execution.reset, OperandStack.clear, OperandStack.empty]
        have hbase : s.size - taken.length = 0 := by
          rw [hstack, hargs type ht, htypes, Nat.sub_self]
        obtain ⟨hlimit, hsize⟩ := hidle.shift (OperandStack.shift_pop (htypes ▸ hn))
        refine ⟨hlimit, hsize, hdepth, fun g hg => ?_⟩
        cases hg
        exact hbase

theorem length_zeroArgs {f : Nat} {type : FuncType} (h : module.funcType? f = some type) :
    (zeroArgs module f).length = type.params.length := by
  unfold zeroArgs
  rw [h]
  exact List.length_map _

theorem length_of_callError? {f : Nat} {args : List Value} {type : FuncType}
    (hc : callError? module f args = none) (h : module.funcType? f = some type) :
    args.length = type.params.length := by
  unfold callError? at hc
  rw [h] at hc
  simp only at hc
  split at hc
  · rename_i htypes
    rw [← htypes, List.length_map]
  · exact absurd hc (by simp)

theorem limited_of_reachable (h : Reachable module limits m) : Limited limits m := by
  induction h with
  | created h =>
    obtain ⟨-, hstack, hframes⟩ := blank_of_instantiate? h
    exact limited_of_idle hframes (by rw [hstack]; rfl) (by rw [hstack]; exact Nat.zero_le _)
  | started bridge _ _ ih =>
    exact @limited_enterEntry ⟨module, limits, bridge⟩ _ _ _ ih.limit fun _ => length_zeroArgs
  | called bridge _ hc ih =>
    exact @limited_enterEntry ⟨module, limits, bridge⟩ _ _ _ ih.limit
      fun _ => length_of_callError? hc
  | @dispatched m bridge watch hr ih =>
    rcases dispatch_cases ⟨module, limits, bridge⟩ watch m with
      ⟨-, h⟩ | ⟨-, h⟩ | ⟨frame, callers, i, hf, -, he⟩
    · rw [h]
      exact ih
    · rw [h]
      exact ih
    · have hm := layered_of_reachable hr
      exact @Limited.effect ⟨module, limits, bridge⟩ m frame callers i _ ih hm hf he

/-! ## Links -/

/-- The position lies in a function's body, directly behind a call. -/
def BehindCall (module : Module) (f : Nat) (p : Position) : Prop :=
  p.function = f ∧ ∃ code q i, module.code? f = some code ∧ code[q]? = some i ∧
    i.isCall = true ∧ p.instr = q + 1

/-- Functions have bodies, and each frame but the innermost is to be returned to behind the call
that it made. -/
structure Linked (module : Module) (m : Machine) : Prop where
  defined : ∀ frame ∈ m.frames, ∃ code, module.code? frame.function = some code
  ip : ∀ frame ∈ m.frames.head?, m.ip.function = frame.function
  returns : m.frames.IsChain fun callee caller =>
    BehindCall module caller.function callee.returnTo

theorem linked_of_frames_nil (hf : m.frames = []) : Linked module m where
  defined := by simp [hf]
  ip := by simp [hf]
  returns := by rw [hf]; exact .nil

theorem code?_of_defined {f : Nat} {t : UInt32} {locals : List ValueType} {code : Array Instr}
    (h : module.functions[f]? = some (.defined t locals code)) : module.code? f = some code := by
  unfold Module.code?
  rw [h]
  rfl

/-- A caller does not see which locals and labels its callee has. -/
theorem returns_update {frame' : Frame}
    (h : (frame :: callers).IsChain fun callee caller =>
      BehindCall module caller.function callee.returnTo)
    (hr : frame'.returnTo = frame.returnTo) :
    (frame' :: callers).IsChain fun callee caller =>
      BehindCall module caller.function callee.returnTo := by
  cases callers with
  | nil => exact .singleton _
  | cons caller outer =>
    obtain ⟨hfirst, hrest⟩ := List.isChain_cons_cons.mp h
    exact .cons_cons (hr ▸ hfirst) hrest

theorem isCall_of_callee? {f : Nat} (h : m.callee? i = some f) : i.isCall = true := by
  cases i <;> first | rfl | exact absurd h (by simp [callee?])

/-- The instruction at the position lies in the body of its function. -/
theorem code?_of_fetch? {p : Position} (h : fetch? setup p = some i) :
    ∃ code, setup.module.code? p.function = some code ∧ code[p.instr]? = some i :=
  Option.bind_eq_some_iff.mp h

/-- **Every effect keeps the links.** -/
theorem Linked.effect (h : Linked setup.module m) (hf : m.frames = frame :: callers)
    (hi : fetch? setup m.ip = some i) (he : Effect setup m frame callers i step) :
    Linked setup.module step.machine := by
  obtain ⟨hframe, hcallers⟩ := List.forall_mem_cons.mp (hf ▸ h.defined)
  have hip : m.ip.function = frame.function := h.ip frame (by rw [hf]; rfl)
  have hreturns := hf ▸ h.returns
  cases he with
  | fault _ => exact h
  | threw _ _ _ => exact ⟨h.defined, h.ip, h.returns⟩
  | @inside _ m' locals labels _ hstep _ hframes _ hposition _ _ _ =>
    rw [machine_of_onward? hstep]
    refine ⟨?_, ?_, ?_⟩
    · rw [hframes]
      exact List.forall_mem_cons.mpr ⟨hframe, hcallers⟩
    · rw [hframes, hposition]
      rintro g ⟨rfl⟩
      exact hip
    · rw [hframes]
      exact returns_update hreturns rfl
  | branched _ _ _ _ =>
    refine ⟨List.forall_mem_cons.mpr ⟨hframe, hcallers⟩, ?_, returns_update hreturns rfl⟩
    rintro g ⟨rfl⟩
    exact hip
  | @entered f _ locals code _ args hc _ hdefined _ _ _ _ =>
    refine ⟨List.forall_mem_cons.mpr ⟨⟨code, code?_of_defined hdefined⟩, h.defined⟩, ?_, ?_⟩
    · rintro g ⟨rfl⟩
      rfl
    · show (m.newFrame f args locals _ :: m.frames).IsChain _
      rw [hf]
      obtain ⟨body, hbody, hcall⟩ := code?_of_fetch? hi
      exact .cons_cons
        ⟨hip, body, m.ip.instr, i, hip ▸ hbody, hcall, isCall_of_callee? hc, rfl⟩ hreturns
  | @returned caller outer _ _ _ hc _ _ _ =>
    rw [hc] at hcallers hreturns ⊢
    obtain ⟨⟨hback, -⟩, hrest⟩ := List.isChain_cons_cons.mp hreturns
    refine ⟨hcallers, ?_, hrest⟩
    rintro g ⟨rfl⟩
    exact hback
  | finished _ _ _ _ _ => exact linked_of_frames_nil rfl

theorem linked_of_reachable (h : Reachable module limits m) : Linked module m := by
  refine h.invariant (fun _ hidle => linked_of_frames_nil hidle.frames) ?_ ?_
  · intro bridge f m m' he
    cases he with
    | intro hf _ _ =>
      refine ⟨fun g hg => ?_, ?_, .singleton _⟩
      · cases List.mem_singleton.mp hg
        exact ⟨_, code?_of_defined hf⟩
      · rintro g ⟨rfl⟩
        rfl
  · intro bridge m frame callers i step hf hm hi he
    have hkeep := @Linked.effect ⟨module, limits, bridge⟩ m frame callers i step
    exact hkeep hm hf hi he

/-! ## The whole structure -/

/-- **The structure of frames and operands.** Frames are innermost first. -/
structure Structured (module : Module) (limits : Limitation) (m : Machine) : Prop where
  depth : m.frames.length ≤ limits.maxCallDepth
  size : m.stack.size ≤ limits.maxValueStack
  /-- The floor is the base of the innermost frame, or zero without one. -/
  floor : m.stack.floor = innermostBase m.frames
  room : m.stack.floor ≤ m.stack.size
  bases : m.frames.IsChain fun callee caller => caller.base ≤ callee.base
  outermost : ∀ frame ∈ m.frames.getLast?, frame.base = 0
  heights : ∀ frame ∈ m.frames, ∀ label ∈ frame.labels, frame.base ≤ label.height
  defined : ∀ frame ∈ m.frames, ∃ code, module.code? frame.function = some code
  ip : ∀ frame ∈ m.frames.head?, m.ip.function = frame.function
  returns : m.frames.IsChain fun callee caller =>
    BehindCall module caller.function callee.returnTo

theorem Nested.bases {frames : List Frame} (h : Nested frames) :
    frames.IsChain fun callee caller => caller.base ≤ callee.base := by
  induction frames with
  | nil => exact .nil
  | cons frame callers ih =>
    obtain ⟨hbase, -, hrest⟩ := h
    cases callers with
    | nil => exact .singleton _
    | cons caller outer => exact .cons_cons hbase (ih hrest)

theorem Nested.heights {frames : List Frame} (h : Nested frames) :
    ∀ frame ∈ frames, ∀ label ∈ frame.labels, frame.base ≤ label.height := by
  induction frames with
  | nil => exact fun _ hm => absurd hm List.not_mem_nil
  | cons frame callers ih => exact List.forall_mem_cons.mpr ⟨h.2.1, ih h.2.2⟩

theorem structured_of_reachable (h : Reachable module limits m) : Structured module limits m := by
  have hlimited := limited_of_reachable h
  have hlayered := layered_of_reachable h
  have hlinked := linked_of_reachable h
  exact ⟨hlimited.depth, hlimited.size, hlayered.floor, hlayered.room, hlayered.nested.bases,
    hlimited.outermost, hlayered.nested.heights, hlinked.defined, hlinked.ip, hlinked.returns⟩

end Machine

namespace Execution

open Machine

variable {module : Module} {limits : Limitation}

/-- What comes of making a module ready and operating it, in any order and however each operation
ends. Bridge, registry, tracing and bound may differ from one operation to the next. A call that
is refused changes nothing. -/
inductive Operated (module : Module) (limits : Limitation) : Execution → Prop where
  | created {e} (h : ofModule? (some module) limits = .ok e) : Operated module limits e
  | started {e} (bridge : Bridge) (tracing : Bool) (watch : Breakpoints) (fuel : Nat)
      (h : Operated module limits e) :
      Operated module limits (e.start ⟨⟨module, limits, bridge⟩, tracing, watch⟩ fuel).execution
  | called {e f args r} (bridge : Bridge) (tracing : Bool) (watch : Breakpoints) (fuel : Nat)
      (h : Operated module limits e)
      (hr : e.call ⟨⟨module, limits, bridge⟩, tracing, watch⟩ fuel f args = .ok r) :
      Operated module limits r.execution
  | resumed {e} (bridge : Bridge) (tracing : Bool) (watch : Breakpoints) (fuel : Nat)
      (how : Resumption) (h : Operated module limits e) :
      Operated module limits
        (e.resumeBy ⟨⟨module, limits, bridge⟩, tracing, watch⟩ fuel how).execution

theorem reachable_of_operated {e : Execution} (h : Operated module limits e) :
    Reachable module limits e.machine := by
  induction h with
  | created h => exact reachable_ofModule? h
  | started _ _ _ _ _ ih => exact reachable_start ih
  | called _ _ _ _ _ hr ih => exact reachable_call ih hr
  | resumed _ _ _ _ _ _ ih => exact reachable_resumeBy ih

/-- **Frames and operands keep their structure under every sequence of operations**: the limits
hold, the floor is the base of the innermost frame, bases grow inwards from zero, no label lies
below the base of its frame, and return addresses lead back behind the calls. -/
theorem structured_of_operated {e : Execution} (h : Operated module limits e) :
    Structured module limits e.machine :=
  structured_of_reachable (reachable_of_operated h)

/-- The littering callee, stopped at its return. -/
def stoppedInside : Run :=
  runEntry ⟨littering, false, ⟨[(0, .code ⟨1, 2⟩)], 1⟩⟩ 9 0 [] (bare littering.limits)

theorem structured_of_operated_inside :
    Operated littering.module littering.limits stoppedInside.execution ∧
      Structured littering.module littering.limits stoppedInside.execution.machine ∧
      stoppedInside.execution.machine.frames.map Frame.base = [1, 0] ∧
      stoppedInside.execution.machine.frames.map Frame.returnTo = [⟨0, 3⟩, ⟨0, 0⟩] := by
  have hcreated : Operated littering.module littering.limits
      ⟨bare littering.limits, .uninitialized⟩ := by
    refine .created ?_
    unfold ofModule?
    simp only
    rw [show instantiate? littering.module littering.limits = .ok (bare littering.limits) from
      instantiate?_bare _ _ _]
    rfl
  have hcall : call ⟨littering, false, ⟨[(0, .code ⟨1, 2⟩)], 1⟩⟩ 9 0 []
      ⟨bare littering.limits, .uninitialized⟩ = .ok stoppedInside := rfl
  have hcalled : Operated littering.module littering.limits stoppedInside.execution :=
    .called .unavailable false ⟨[(0, .code ⟨1, 2⟩)], 1⟩ 9 hcreated hcall
  exact ⟨hcalled, structured_of_operated hcalled, rfl, rfl⟩

end Execution

end WasmDebugger
