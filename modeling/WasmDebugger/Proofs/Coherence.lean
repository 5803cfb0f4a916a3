import WasmDebugger.Proofs.FrameChain
import WasmDebugger.Proofs.Registry
import WasmDebugger.Proofs.Requests

/-!
# Coherent sessions

Modules, executions and breakpoints come and go by different requests. What stands side by side in
a session belongs together all the same.

* `Module.Has`: what a breakpoint is about is there.
* `Loaded.Coherent`: the execution is one of the module, its breakpoints are about things that it
  has, and the names are its own.
* `Coherent.performed`: every request keeps that.
* **`parts_belong_together`**: every session is so, whatever it has been asked.
-/

namespace WasmDebugger

/-- What a breakpoint is about is there: an instruction of a defined function, or a global. Memory
may be watched anywhere. -/
def Module.Has (module : Module) : Breakpoint → Prop
  | .code p => ∃ t locals code,
    module.functions[p.function]? = some (.defined t locals code) ∧ p.instr < code.size
  | .global _ index => index.toNat < module.globals.size
  | .memory _ _ _ => True

namespace Execution

variable {module : Module} {limits : Limitation} {bridge : Bridge} {tracing : Bool}
  {watch : Breakpoints} {e : Execution} {r : Run}

/-- One more operation. -/
theorem Operated.operation (h : Operated module limits e)
    (hr : Operation ⟨⟨module, limits, bridge⟩, tracing, watch⟩ e r) :
    Operated module limits r.execution := by
  cases hr with
  | started fuel => exact .started bridge tracing watch fuel h
  | called hr => exact .called bridge tracing watch _ h hr
  | resumed fuel how => exact .resumed bridge tracing watch fuel how h

end Execution

open Execution (Operated Operation callError? ofModule?)
open Machine (bare instantiate?)

/-- **A module and what belongs to it.** -/
structure Loaded.Coherent (limits : Limitation) (l : Loaded) : Prop where
  execution : ∀ e, l.execution = some e → Operated l.module limits e
  breakpoints : ∀ entry ∈ l.breakpoints.entries, l.module.Has entry.2
  names : l.names = (DebugNames.ofModule l.module).1

namespace Session

variable {files : Files} {fuel : Nat} {s s' : Session} {l : Loaded} {e : Execution}
  {request : Request} {report : Report RequestError Answer} {xs : List Exchange}

theorem hasInstruction_iff {module : Module} {f i : Nat} :
    module.hasInstruction f i = true ↔ ∃ t locals code,
      module.functions[f]? = some (.defined t locals code) ∧ i < code.size := by
  unfold Module.hasInstruction Module.code?
  constructor
  · intro h
    split at h
    · exact absurd h (by simp)
    · rename_i code hcode
      obtain ⟨function, hf, hcode⟩ := Option.bind_eq_some_iff.mp hcode
      cases function with
      | imported _ _ => cases hcode
      | defined t locals code =>
        cases hcode
        exact ⟨t, locals, code, hf, of_decide_eq_true h⟩
  · rintro ⟨t, locals, code, hf, hi⟩
    rw [hf]
    exact decide_eq_true hi

/-- A breakpoint is accepted if and only if the module has what it is about. -/
theorem breakpointError?_eq_none_iff {module : Module} {b : Breakpoint} :
    breakpointError? module b = none ↔ module.Has b := by
  cases b with
  | code p =>
    refine Iff.trans ?_ hasInstruction_iff
    simp [breakpointError?]
  | global t index => simp [breakpointError?, Module.Has]
  | memory t address length => exact ⟨fun _ => trivial, fun _ => rfl⟩

/-! ## One request -/

/-- What is loaded is coherent. -/
def Coherent (s : Session) : Prop := ∀ l, s.loaded = some l → l.Coherent s.config.limits

/-- What can be run is an execution of the module that is loaded. -/
theorem Runnable.operated (h : s.Runnable l e) (hs : s.Coherent) :
    Operated l.module s.config.limits e := by
  rcases h.origin with hlive | hfresh
  · exact (hs l h.loaded).execution e hlive
  · exact .created hfresh

/-- **Every request keeps a session coherent.** -/
theorem Coherent.performed (hs : s.Coherent) (h : s.Performed files request report) :
    report.session.Coherent := by
  intro l' hl'
  cases h with
  | refused _ | told _ _ => exact hs l' hl'
  | @ran _ l e r _ he hr =>
    cases hl'
    refine { hs l he.loaded with execution := fun e' he' => ?_ }
    cases he'
    exact (he.operated hs).operation hr
  | reset =>
    obtain ⟨l, hl, rfl⟩ := Option.map_eq_some_iff.mp hl'
    exact { hs l hl with execution := fun _ he => nomatch he }
  | loaded _ _ =>
    cases hl'
    exact {
      execution := fun _ he => nomatch he
      breakpoints := fun _ hentry => absurd hentry List.not_mem_nil
      names := rfl }
  | added hl hb =>
    cases hl'
    refine { hs _ hl with breakpoints := fun entry hentry => ?_ }
    rcases Breakpoints.mem_insertEntry hentry with rfl | hentry
    · exact breakpointError?_eq_none_iff.mp hb
    · exact (hs _ hl).breakpoints entry hentry
  | deleted hl =>
    cases hl'
    refine { hs _ hl with breakpoints := fun entry hentry => ?_ }
    exact (hs _ hl).breakpoints entry (List.mem_filter.mp hentry).1
  | cleared hl =>
    cases hl'
    exact { hs _ hl with breakpoints := fun _ hentry => absurd hentry List.not_mem_nil }

/-! ## Dialogues -/

/-- The path of the last load that was granted. -/
def lastLoad? (xs : List Exchange) : Option String := (xs.filterMap Exchange.loaded?).getLast?

theorem lastLoad?_snoc (x : Exchange) : lastLoad? (xs ++ [x]) = x.loaded?.or (lastLoad? xs) := by
  unfold lastLoad?
  rw [List.filterMap_append]
  cases hx : x.loaded? <;> simp [hx]

theorem loaded?_of_not_administers (h : request.administers = false)
    (answer : Except RequestError Answer) : Exchange.loaded? ⟨request, answer⟩ = none := by
  cases request <;> first | rfl | cases h

/-- Only a load that is granted changes the path. -/
theorem Performed.path (h : s.Performed files request report) :
    report.session.loaded.map Loaded.path =
      (Exchange.loaded? ⟨request, report.answer⟩).or (s.loaded.map Loaded.path) := by
  cases h with
  | refused _ => cases request <;> rfl
  | told hadministers _ =>
    rw [loaded?_of_not_administers hadministers]
    rfl
  | ran hadministers he _ =>
    rw [loaded?_of_not_administers hadministers, he.loaded]
    rfl
  | reset =>
    show (s.loaded.map _).map Loaded.path = s.loaded.map Loaded.path
    rw [Option.map_map]
    rfl
  | loaded _ _ => rfl
  | added hl _ | deleted hl | cleared hl =>
    rw [hl]
    rfl

theorem coherent_of_dialogue {config : Config} (h : Dialogue { config := config } xs s) :
    s.Coherent ∧ s.loaded.map Loaded.path = lastLoad? xs := by
  induction h with
  | opened => exact ⟨(fun _ hl => nomatch hl), rfl⟩
  | @performed _ s' files fuel request _ ih =>
    have hcases := perform_cases files fuel s' request
    exact ⟨ih.1.performed hcases, by rw [lastLoad?_snoc, ← ih.2, hcases.path]⟩
  | hosted bridge _ ih => exact ih

/-- **The parts of a session belong together.** After every sequence of requests, granted or
refused, and whatever the host answers:

* what is loaded is coherent, and it is from the last load that was granted;
* before any there is no execution, and nothing has a name;
* whatever is run is the execution that is there or a fresh one, with the module that is loaded and
  the breakpoints that are there, and it stays in the session. -/
theorem parts_belong_together {config : Config} (h : Dialogue { config := config } xs s) :
    (∀ l, s.loaded = some l → l.Coherent s.config.limits) ∧
    s.loaded.map Loaded.path = lastLoad? xs ∧
    (s.loaded = none →
      s.live? = none ∧ ∀ f x, s.functionName? f = none ∧ s.localName? f x = none) ∧
    ∀ files fuel request o, (s.perform files fuel request).answer = .ok (.outcome o) →
      ∃ l e r, s.Runnable l e ∧
        Operation ⟨⟨l.module, s.config.limits, s.config.makeBridge⟩, s.config.tracing,
          l.breakpoints⟩ e r ∧
        r.outcome = o ∧ (s.perform files fuel request).session = s.withExecution l r.execution := by
  obtain ⟨hcoherent, hpath⟩ := coherent_of_dialogue h
  refine ⟨hcoherent, hpath, fun hnone => ?_, fun files fuel request o ho => ?_⟩
  · unfold live? functionName? localName?
    rw [hnone]
    exact ⟨rfl, fun _ _ => ⟨rfl, rfl⟩⟩
  · have hcases := perform_cases files fuel s request
    generalize s.perform files fuel request = report at ho hcases ⊢
    cases hcases with
    | ran _ he hr =>
      cases ho
      exact ⟨_, _, _, he, hr, rfl, rfl⟩
    | told _ hanswer => exact absurd (Except.ok.inj ho) (hanswer o)
    | refused _ | reset | loaded _ _ | added _ _ | deleted _ | cleared _ => cases ho

/-- A function that does nothing twice, and a name for it. -/
def nopBytes : List UInt8 :=
  [0x00, 0x61, 0x73, 0x6D, 0x01, 0x00, 0x00, 0x00,
   0x01, 0x04, 0x01, 0x60, 0x00, 0x00,
   0x03, 0x02, 0x01, 0x00,
   0x0A, 0x06, 0x01, 0x04, 0x00, 0x01, 0x01, 0x0B,
   0x00, 0x0B, 0x04, 0x6E, 0x61, 0x6D, 0x65, 0x01, 0x04, 0x01, 0x00, 0x01, 0x66]

/-- What `nopBytes` spells. -/
def nopModule : Module where
  types := #[⟨[], []⟩]
  functions := #[.defined 0 [] #[.nop, .nop, .blockEnd]]
  customSections := [⟨"name", [0x01, 0x04, 0x01, 0x00, 0x01, 0x66]⟩]

theorem ofBytes?_nopBytes : Module.ofBytes? nopBytes = .ok nopModule := by
  have h : (Module.ofBytes? nopBytes).toOption = some nopModule := by decide +kernel
  cases hm : Module.ofBytes? nopBytes <;> simp_all [Except.toOption]

/-- Every file holds it. -/
def nopFiles : Files := fun _ => some nopBytes

/-- A session that has loaded it. -/
def nopSession (breakpoints : Breakpoints) (execution : Option Execution) : Session where
  loaded := some
    { path := "nop.wasm"
      module := nopModule
      names := { functions := [(0, "f")] }
      breakpoints := breakpoints
      execution := execution }

theorem perform_load_nopFiles :
    ({} : Session).perform nopFiles 9 (.load "nop.wasm") = ⟨nopSession {} none, .ok .done, []⟩ := by
  have hnames : DebugNames.ofModule nopModule = ({ functions := [(0, "f")] }, none) := by
    decide +kernel
  unfold perform load nopFiles
  simp only [ofBytes?_nopBytes, hnames]
  rfl

/-- A breakpoint at the second instruction. -/
def nopWatch : Breakpoints := ⟨[(0, .code ⟨0, 1⟩)], 1⟩

/-- The execution that has come to it. -/
def nopPaused : Execution where
  machine :=
    { ip := ⟨0, 1⟩
      stack := .empty 1048576
      frames := [⟨0, #[], ⟨0, 0⟩, 0, []⟩]
      globals := #[]
      memories := #[]
      tables := #[] }
  status := .paused

theorem perform_call_nopSession :
    (nopSession nopWatch none).perform nopFiles 9 (.call 0 []) =
      ⟨nopSession nopWatch (some nopPaused), .ok (.outcome (.stopped (some (.breakpoint 0)))),
        []⟩ := by
  have hnew : ofModule? (some nopModule) {} = .ok ⟨bare {}, .uninitialized⟩ := by
    unfold ofModule? instantiate? nopModule
    simp only [List.map_toArray, List.map_nil]
    rfl
  have hcheck : callError? nopModule 0 [] = none := rfl
  unfold perform Session.call ensureExecution Session.instantiate nopSession
  simp only [hnew, hcheck]
  rfl

theorem parts_belong_together_paused :
    Dialogue {} [⟨.load "nop.wasm", .ok .done⟩, ⟨.addBreakpoint (.code ⟨0, 1⟩), .ok (.index 0)⟩,
        ⟨.call 0 [], .ok (.outcome (.stopped (some (.breakpoint 0))))⟩]
        (nopSession nopWatch (some nopPaused)) ∧
      (nopSession nopWatch (some nopPaused)).functionName? 0 = some "f" ∧
      ∀ l, (nopSession nopWatch (some nopPaused)).loaded = some l → l.Coherent {} := by
  have hadd : (nopSession {} none).perform nopFiles 9 (.addBreakpoint (.code ⟨0, 1⟩)) =
      ⟨nopSession nopWatch none, .ok (.index 0), []⟩ := rfl
  have hdialogue := ((Dialogue.opened.snoc perform_load_nopFiles).snoc hadd).snoc
    perform_call_nopSession
  exact ⟨hdialogue, rfl, (parts_belong_together hdialogue).1⟩

end Session

end WasmDebugger
