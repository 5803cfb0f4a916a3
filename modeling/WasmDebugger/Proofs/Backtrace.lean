import WasmDebugger.Proofs.Coherence
import WasmDebugger.Proofs.Labels
import WasmDebugger.Proofs.Statuses

/-!
# Backtraces

No frame says where it is. The innermost one is at the current position, and where another one is
stands in the frame that it called. A backtrace puts the two kinds of position into one list.

* `Module.Locates`: a position is that of an instruction of a function.
* `Machine.forall₂_positions`: with a frame there is one position for each, in its function.
* `Session.frameAt?_sub`, `Session.frameAt?_eq_none_iff`: counted from either end, depths are the
  same frames, and no others.
* `Session.read_of_dialogue`: what is loaded was read from a file, so its bodies are resolved.
* **`backtrace_one_per_frame_iff`**: a backtrace has one position per frame if and only if there is
  a frame.
* **`idle_backtrace_has_position`**: without one it has the current position all the same.
-/

namespace WasmDebugger

/-- The position is that of an instruction of the function `f`. -/
def Module.Locates (module : Module) (p : Position) (f : Nat) : Prop :=
  p.function = f ∧ module.hasInstruction p.function p.instr = true

namespace Machine

variable {module : Module} {m : Machine} {frame : Frame}

/-! ## Positions -/

theorem map_fst_activationsFrom (p : Position) (frame : Frame) (callers : List Frame) :
    (activationsFrom p (frame :: callers)).map Prod.fst =
      p :: (frame :: callers).dropLast.map Frame.returnTo := by
  induction callers generalizing p frame with
  | nil => rfl
  | cons caller outer ih =>
    show p :: (activationsFrom frame.returnTo (caller :: outer)).map Prod.fst = _
    rw [ih]
    rfl

theorem map_snd_activationsFrom (p : Position) (frames : List Frame) :
    (activationsFrom p frames).map Prod.snd = frames := by
  induction frames generalizing p with
  | nil => rfl
  | cons frame callers ih => exact congrArg (frame :: ·) (ih frame.returnTo)

/-- Where a frame on track is, its function has an instruction. -/
theorem Tracks.locates {p : Position} (h : Tracks module p frame) :
    module.Locates p frame.function := by
  obtain ⟨hfunction, code, hcode, hlt, -⟩ := h
  refine ⟨hfunction, ?_⟩
  unfold Module.hasInstruction
  rw [hfunction, hcode]
  exact decide_eq_true hlt

/-- **With a frame there is one position for each**, in the function of that frame. -/
theorem forall₂_positions (h : OnTrack module m) (hf : m.frames ≠ []) :
    List.Forall₂ (fun p frame => module.Locates p frame.function)
      (m.ip :: m.frames.dropLast.map Frame.returnTo) m.frames := by
  have hpaired : List.Forall₂ (fun p frame => module.Locates p frame.function)
      (m.activations.map Prod.fst) (m.activations.map Prod.snd) := by
    rw [List.forall₂_map_left_iff, List.forall₂_map_right_iff, List.forall₂_same]
    exact fun a ha => (h a ha).locates
  obtain ⟨frame, callers, hframes⟩ := List.exists_cons_of_ne_nil hf
  unfold activations at hpaired
  rw [map_snd_activationsFrom, hframes, map_fst_activationsFrom] at hpaired
  rwa [hframes]

end Machine

namespace Session

open Machine (bare)

variable {files : Files} {s : Session} {l : Loaded} {e : Execution} {m : Machine}
  {request : Request} {report : Report RequestError Answer} {xs : List Exchange}

/-! ## Frames by their depth -/

/-- From zero on a depth counts from the outermost frame. -/
theorem frameAt?_natCast (m : Machine) (d : Nat) : frameAt? m d = m.frames.reverse[d]? := by
  unfold frameAt?
  have hnot : ¬ (d : Int) < 0 := by omega
  simp only [if_neg hnot, Int.toNat_natCast]

/-- **Counted from the innermost frame a depth is smaller by the number of frames.** -/
theorem frameAt?_sub {d : Nat} (h : d < m.frames.length) :
    frameAt? m (d - m.frames.length) = m.frames.reverse[d]? := by
  unfold frameAt?
  have hneg : (d : Int) - m.frames.length < 0 := by omega
  have hindex : (m.frames.length : Int) + (d - m.frames.length) = d := by omega
  have hnot : ¬ (d : Int) < 0 := by omega
  simp only [if_pos hneg, hindex, if_neg hnot, Int.toNat_natCast]

/-- **Every other depth is that of no frame**, however large or small. -/
theorem frameAt?_eq_none_iff {d : Int} :
    frameAt? m d = none ↔ d < -m.frames.length ∨ m.frames.length ≤ d := by
  unfold frameAt?
  simp only
  by_cases hd : d < 0
  · rw [if_pos hd]
    by_cases hout : (m.frames.length : Int) + d < 0
    · rw [if_pos hout]
      exact iff_of_true rfl (Or.inl (by omega))
    · rw [if_neg hout, List.getElem?_eq_none_iff, List.length_reverse]
      omega
  · rw [if_neg hd, if_neg hd, List.getElem?_eq_none_iff, List.length_reverse]
    omega

theorem locals_of_live (h : s.live? = some (l, e)) (depth : Int) :
    s.locals depth = match frameAt? e.machine depth with
      | some frame => .ok frame.locals.toList
      | none => .error .frameDepth := by
  unfold locals Session.frame machine
  rw [h]
  simp only [bind, Except.bind]
  cases frameAt? e.machine depth <;> rfl

theorem backtrace_of_live (h : s.live? = some (l, e)) :
    s.backtrace = .ok (e.machine.ip :: e.machine.frames.dropLast.map Frame.returnTo) := by
  unfold backtrace machine
  rw [h]
  rfl

/-! ## What is loaded was read -/

/-- What is loaded was read from some bytes. -/
def Read (s : Session) : Prop :=
  ∀ l, s.loaded = some l → ∃ bytes, Module.ofBytes? bytes = .ok l.module

theorem Read.performed (hs : s.Read) (h : s.Performed files request report) :
    report.session.Read := by
  intro l' hl'
  cases h with
  | refused _ | told _ _ => exact hs l' hl'
  | @ran _ l _ _ _ he _ =>
    cases hl'
    exact hs l he.loaded
  | reset =>
    obtain ⟨l, hl, rfl⟩ := Option.map_eq_some_iff.mp hl'
    exact hs l hl
  | loaded _ hmodule =>
    cases hl'
    exact ⟨_, hmodule⟩
  | @added _ l hl _ | @deleted _ l hl | @cleared l hl =>
    cases hl'
    exact hs l hl

theorem read_of_dialogue {config : Config} (h : Dialogue { config := config } xs s) : s.Read := by
  induction h with
  | opened => exact fun _ hl => nomatch hl
  | @performed _ s' files fuel request _ ih =>
    exact ih.performed (perform_cases files fuel s' request)
  | hosted _ _ ih => exact ih

/-! ## Sessions -/

/-- **A backtrace has one position per frame if and only if there is a frame.** However a session
with an execution has come about, its backtrace starts with the current position. With a frame the
`k`-th position is that of an instruction in the function of the `k`-th innermost frame; without
one the current position is there all the same, and that is the only way for the numbers to differ.

The locals of a frame can be had by its depth from either end, the two depths differing by the
number of frames, and every other depth is refused. -/
theorem backtrace_one_per_frame_iff {config : Config} (h : Dialogue { config := config } xs s)
    (hlive : s.live? = some (l, e)) :
    (∃ ps, s.backtrace = .ok ps ∧ ps.head? = some e.machine.ip ∧
      (ps.length = e.machine.frames.length ↔ e.machine.frames ≠ []) ∧
      (e.machine.frames ≠ [] →
        List.Forall₂ (fun p frame => l.module.Locates p frame.function) ps e.machine.frames) ∧
      (e.machine.frames = [] → ps = [e.machine.ip])) ∧
    (∀ (d : Nat) frame, e.machine.frames.reverse[d]? = some frame →
      s.locals d = .ok frame.locals.toList ∧
        s.locals (d - e.machine.frames.length) = .ok frame.locals.toList) ∧
    ∀ d : Int, d < -e.machine.frames.length ∨ e.machine.frames.length ≤ d →
      s.locals d = .error .frameDepth := by
  obtain ⟨hl, he⟩ := live?_eq_some_iff.mp hlive
  have hoperated := ((coherent_of_dialogue h).1 l hl).execution e he
  have hreachable := Execution.reachable_of_operated hoperated
  obtain ⟨bytes, hbytes⟩ := read_of_dialogue h l hl
  have htrack := Machine.onTrack_of_reachable (bodiesResolved_of_ofBytes? hbytes) hreachable
  refine ⟨⟨_, backtrace_of_live hlive, rfl, ?_, Machine.forall₂_positions htrack, ?_⟩, ?_, ?_⟩
  · constructor
    · intro hlength hnil
      rw [hnil] at hlength
      exact absurd hlength (by simp)
    · exact fun hf => (Machine.forall₂_positions htrack hf).length_eq
  · intro hnil
    rw [hnil]
    rfl
  · intro d frame hframe
    have hd : d < e.machine.frames.length := by
      rw [← List.length_reverse]
      exact (List.getElem?_eq_some_iff.mp hframe).1
    rw [locals_of_live hlive, locals_of_live hlive, frameAt?_natCast, frameAt?_sub hd, hframe]
    exact ⟨rfl, rfl⟩
  · intro d hd
    rw [locals_of_live hlive, frameAt?_eq_none_iff.mpr hd]

/-- A function that calls another one, which does nothing. -/
def callingBytes : List UInt8 :=
  [0x00, 0x61, 0x73, 0x6D, 0x01, 0x00, 0x00, 0x00,
   0x01, 0x04, 0x01, 0x60, 0x00, 0x00,
   0x03, 0x03, 0x02, 0x00, 0x00,
   0x0A, 0x0A, 0x02, 0x04, 0x00, 0x10, 0x01, 0x0B, 0x03, 0x00, 0x01, 0x0B]

/-- What `callingBytes` spells. -/
def callingModule : Module where
  types := #[⟨[], []⟩]
  functions := #[.defined 0 [] #[.call 1, .blockEnd], .defined 0 [] #[.nop, .blockEnd]]

theorem ofBytes?_callingBytes : Module.ofBytes? callingBytes = .ok callingModule := by
  have h : (Module.ofBytes? callingBytes).toOption = some callingModule := by decide +kernel
  cases hm : Module.ofBytes? callingBytes <;> simp_all [Except.toOption]

/-- A session that has loaded a module without names. -/
def plainSession (module : Module) (breakpoints : Breakpoints) (execution : Option Execution) :
    Session where
  loaded := some
    { path := "plain.wasm"
      module := module
      names := {}
      breakpoints := breakpoints
      execution := execution }

theorem perform_load_plain {bytes : List UInt8} {module : Module}
    (hbytes : Module.ofBytes? bytes = .ok module)
    (hnames : DebugNames.ofModule module = ({}, none)) :
    ({} : Session).perform (fun _ => some bytes) 9 (.load "plain.wasm") =
      ⟨plainSession module {} none, .ok .done, []⟩ := by
  unfold perform load
  simp only [hbytes, hnames]
  rfl

/-- A breakpoint in the callee. -/
def calleeWatch : Breakpoints := ⟨[(0, .code ⟨1, 0⟩)], 1⟩

/-- The execution that has come to it. -/
def insideCallee : Execution where
  machine :=
    { ip := ⟨1, 0⟩
      stack := .empty 1048576
      frames := [⟨1, #[], ⟨0, 1⟩, 0, []⟩, ⟨0, #[], ⟨0, 0⟩, 0, []⟩]
      globals := #[]
      memories := #[]
      tables := #[] }
  status := .paused

theorem perform_call_callingModule :
    (plainSession callingModule calleeWatch none).perform (fun _ => some callingBytes) 9
        (.call 0 []) =
      ⟨plainSession callingModule calleeWatch (some insideCallee),
        .ok (.outcome (.stopped (some (.breakpoint 0)))), []⟩ := by
  have hnew : Execution.ofModule? (some callingModule) {} = .ok ⟨bare {}, .uninitialized⟩ :=
    Execution.ofModule?_bare _ _ _
  have hcheck : Execution.callError? callingModule 0 [] = none := rfl
  unfold perform Session.call ensureExecution Session.instantiate plainSession
  simp only [hnew, hcheck]
  rfl

/-- Stopped in the callee, the backtrace shows where each of the two functions is. -/
theorem backtrace_one_per_frame_iff_insideCallee :
    ∃ xs, Dialogue {} xs (plainSession callingModule calleeWatch (some insideCallee)) ∧
      (plainSession callingModule calleeWatch (some insideCallee)).backtrace =
        .ok [⟨1, 0⟩, ⟨0, 1⟩] ∧
      List.Forall₂ (fun p frame => callingModule.Locates p frame.function) [⟨1, 0⟩, ⟨0, 1⟩]
        insideCallee.machine.frames ∧
      (plainSession callingModule calleeWatch (some insideCallee)).locals (-3) =
        .error .frameDepth := by
  have hload := perform_load_plain ofBytes?_callingBytes (by decide +kernel)
  have hadd : (plainSession callingModule {} none).perform (fun _ => some callingBytes) 9
      (.addBreakpoint (.code ⟨1, 0⟩)) =
        ⟨plainSession callingModule calleeWatch none, .ok (.index 0), []⟩ := rfl
  have hdialogue :=
    ((Dialogue.opened.snoc hload).snoc hadd).snoc perform_call_callingModule
  obtain ⟨⟨ps, hps, -, -, hall, -⟩, -, hout⟩ := backtrace_one_per_frame_iff hdialogue rfl
  cases hps
  exact ⟨_, hdialogue, rfl, hall nofun, hout (-3) (Or.inl (by decide))⟩

/-- The header and nothing else: a module without functions. -/
def emptyBytes : List UInt8 := [0x00, 0x61, 0x73, 0x6D, 0x01, 0x00, 0x00, 0x00]

theorem ofBytes?_emptyBytes : Module.ofBytes? emptyBytes = .ok {} := by
  have h : (Module.ofBytes? emptyBytes).toOption = some {} := by decide +kernel
  cases hm : Module.ofBytes? emptyBytes <;> simp_all [Except.toOption]

/-- An execution of it that has not entered anything. -/
def idle : Execution := ⟨bare {}, .uninitialized⟩

theorem perform_start_empty :
    (plainSession {} {} none).perform (fun _ => some emptyBytes) 9 .start =
      ⟨plainSession {} {} (some idle), .ok (.outcome (.stopped none)), []⟩ := by
  have hnew : Execution.ofModule? (some {}) {} = .ok idle := Execution.ofModule?_bare _ _ _
  unfold perform Session.start Session.instantiate plainSession
  simp only [hnew]
  rfl

/-- **A backtrace without frames has a position**: when nothing has been entered yet, and even when
the module has no function that the position could be in. -/
theorem idle_backtrace_has_position :
    Dialogue {} [⟨.load "plain.wasm", .ok .done⟩, ⟨.start, .ok (.outcome (.stopped none))⟩]
        (plainSession {} {} (some idle)) ∧
      (plainSession {} {} (some idle)).live?.map (·.2.machine.frames) = some [] ∧
      (plainSession {} {} (some idle)).backtrace = .ok [⟨0, 0⟩] := by
  have hload := perform_load_plain ofBytes?_emptyBytes (by decide +kernel)
  exact ⟨(Dialogue.opened.snoc hload).snoc perform_start_empty, rfl, rfl⟩

end Session

end WasmDebugger
