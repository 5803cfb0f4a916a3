import WasmDebugger.Proofs.Requests
import WasmDebugger.Shell

/-!
# What a line leaves alone

A line that is counted as an error has done nothing to the session, and neither has one that only
looks at it.

* `firstWord`, `head?_wordsOf`: the word that decides what a line asks for.
* `Reaction.Spares`: a refused line leaves the session as it was. Every command is so, since it
  checks its arguments first and then makes one request.
* `Command.inspects`: the commands that only look, or end the session.
* **`execute_spares_session`**: a line counts as one error at most, and then the session is the one
  from before; so it is behind a blank line, a comment and a line that only looks.
-/

namespace WasmDebugger

/-! ## First words -/

/-- The characters of the first word of a line. A blank line has none. -/
def firstWord (line : String) : List Char :=
  (line.toList.dropWhile Octets.isSpace).takeWhile fun c => !Octets.isSpace c

/-- A word that has begun goes on to the next white space. -/
theorem head?_wordsFrom_letters {letters : List Char} (h : letters ≠ []) (chars : List Char) :
    (wordsFrom letters chars).head? =
      some (String.ofList (letters.reverse ++ chars.takeWhile fun c => !Octets.isSpace c)) := by
  induction chars generalizing letters with
  | nil =>
    unfold wordsFrom
    simp [h]
  | cons c rest ih =>
    unfold wordsFrom
    by_cases hc : Octets.isSpace c = true
    · simp [hc, h]
    · rw [if_neg hc, ih (List.cons_ne_nil _ _)]
      simp [hc]

theorem head?_wordsFrom_nil (chars : List Char) :
    (wordsFrom [] chars).head? =
      match (chars.dropWhile Octets.isSpace).takeWhile fun c => !Octets.isSpace c with
      | [] => none
      | letters => some (String.ofList letters) := by
  induction chars with
  | nil => rfl
  | cons c rest ih =>
    unfold wordsFrom
    by_cases hc : Octets.isSpace c = true
    · simpa [hc] using ih
    · rw [if_neg hc, head?_wordsFrom_letters (List.cons_ne_nil _ _)]
      simp [hc]

/-- **The first word of a line**, if it has one. -/
theorem head?_wordsOf (line : String) : (wordsOf line).head? =
    match firstWord line with
    | [] => none
    | letters => some (String.ofList letters) :=
  head?_wordsFrom_nil line.toList

/-! ## Refused lines -/

namespace Reaction

/-- A refused line leaves the session as it was. -/
def Spares (s : Session) (r : Reaction) : Prop := r.failed = true → r.session = s

variable {s : Session}

theorem spares_fail (message : String) : (fail s message).Spares s := fun _ => rfl

theorem session_inspect {α : Type} (answer : Except SessionError α) (text : α → String) :
    (inspect s answer text).session = s := by
  cases answer <;> rfl

theorem spares_report {α : Type} {r : Report SessionError α} (text : α → String)
    (h : ∀ e, r.answer = .error e → r.session = s) : (report r text).Spares s := by
  obtain ⟨session, answer, notices⟩ := r
  intro hfailed
  cases answer with
  | error e => exact h e rfl
  | ok a => cases hfailed

theorem failed_stopped (s : Session) (trap : Trap) : (stopped s trap).failed = false := by
  cases trap <;> rfl

theorem spares_ran {r : Report SessionError Outcome} (idle : Session → String)
    (h : ∀ e, r.answer = .error e → r.session = s) : (ran r idle).Spares s := by
  obtain ⟨session, answer, notices⟩ := r
  intro hfailed
  cases answer with
  | error e => exact h e rfl
  | ok outcome =>
    -- running is not refused, whatever it comes to
    cases outcome with
    | stopped trap =>
      cases trap with
      | none => cases hfailed
      | some trap =>
        have hfailed : (stopped session trap).failed = true := hfailed
        rw [failed_stopped] at hfailed
        cases hfailed
    | threw _ | unfinished => cases hfailed

end Reaction

/-- An operation that is refused as a request leaves the session as it was. -/
theorem Session.session_of_refused {ε α : Type} {s : Session} {r : Report ε α}
    {onError : ε → RequestError} {onAnswer : α → Answer} (files : Files) (fuel : Nat)
    (request : Request) (h : s.perform files fuel request = r.map onError onAnswer) :
    ∀ e, r.answer = .error e → r.session = s := by
  intro e he
  have hanswer : (s.perform files fuel request).answer = .error (onError e) := by
    rw [h]
    show (r.answer.map onAnswer).mapError onError = _
    rw [he]
    rfl
  have hsession := (refused_changes_nothing files fuel s request hanswer).1
  rwa [h] at hsession

namespace Shell

open Reaction
open Session (session_of_refused)

variable {fuel : Nat} {files : Files} {args : List String} {s : Session} {c : Command}

theorem spares_load : (load files args s).Spares s := by
  unfold load
  cases loadPath? args with
  | none => exact spares_fail _
  | some path =>
    have hkept : ∀ e, (s.load files path).answer = .error e → (s.load files path).session = s :=
      session_of_refused files 0 (.load path) rfl
    simp only
    split
    · rename_i e he
      exact fun _ => hkept e he
    · exact nofun

/-- What is wrong with the arguments is said before the session is asked. -/
theorem spares_call : (call fuel args s).Spares s := by
  have hkept : ∀ f values, ((Reaction.ran (s.call fuel f values) fun _ => "").Spares s) :=
    fun f values => spares_ran _ (session_of_refused (fun _ => none) fuel (.call f values) rfl)
  unfold call
  split
  · exact spares_fail _
  · split
    · exact spares_fail _
    · simp only
      split
      · exact hkept _ _
      · split
        · exact spares_fail _
        · split
          · exact spares_fail _
          · exact hkept _ _

/-! ### Breakpoints -/

theorem spares_addBreakpoint (b : Breakpoint) (text : UInt32 → String) :
    (Reaction.report (s.addBreakpoint b) text).Spares s :=
  spares_report text (session_of_refused (fun _ => none) 0 (.addBreakpoint b) rfl)

theorem spares_breakAt : (breakAt args s).Spares s := by
  unfold breakAt
  split
  · split
    · exact spares_addBreakpoint _ _
    · exact spares_fail _
  · exact spares_fail _

theorem spares_addWatch (make : Trigger → Breakpoint) (trigger : Option String) :
    (addWatch make trigger s).Spares s := by
  unfold addWatch
  simp only
  split
  · exact spares_fail _
  · exact spares_addBreakpoint _ _

theorem spares_watch : (watch args s).Spares s := by
  unfold watch
  simp only
  split
  case h_5 => exact spares_fail _
  -- each form reads its numbers first
  all_goals
    split
    all_goals first | exact spares_fail _ | exact spares_addWatch _ _

theorem spares_delete : (delete args s).Spares s := by
  unfold delete
  simp only
  split
  · exact spares_fail _
  · exact spares_report _ (session_of_refused (fun _ => none) 0 (.deleteBreakpoint _) rfl)

/-! ### Inspections -/

theorem session_locals : (locals args s).session = s := by
  unfold locals
  simp only
  split
  · rfl
  · exact session_inspect _ _

theorem session_memory : (memory args s).session = s := by
  unfold memory
  simp only
  split
  · rfl
  · exact session_inspect _ _

theorem session_info : (info args s).session = s := by
  unfold info
  split
  · exact session_inspect _ _
  · exact session_inspect _ _
  · split <;> rfl
  · split <;> rfl
  · rfl

theorem session_disassemble : (disassemble args s).session = s := by
  unfold disassemble
  simp only
  split
  · rfl
  · split
    · rfl
    · split <;> rfl

end Shell

/-- The commands that only look at the session, or end it. -/
def Command.inspects : Command → Bool
  | .backtrace | .locals | .globals | .stack | .memory | .info | .disassemble => true
  | .help | .quit => true
  | _ => false

namespace Shell

open Reaction
open Session (session_of_refused)

variable {fuel : Nat} {files : Files} {args : List String} {s : Session} {c : Command}

/-- **Looking at a session does not change it**, whatever the arguments. -/
theorem session_of_inspects (hc : c.inspects = true) :
    (perform fuel files args s c).session = s := by
  cases c with
  | backtrace | globals | stack => exact session_inspect _ _
  | locals => exact session_locals
  | memory => exact session_memory
  | info => exact session_info
  | disassemble => exact session_disassemble
  | help | quit => rfl
  | _ => cases hc

/-- **A command that is refused has not begun.** -/
theorem spares_perform (fuel : Nat) (files : Files) (args : List String) (s : Session)
    (c : Command) : (perform fuel files args s c).Spares s := by
  cases c with
  | load => exact spares_load
  | start => exact spares_ran _ (session_of_refused files fuel .start rfl)
  | run => exact spares_ran _ (session_of_refused files fuel .run rfl)
  | step => exact spares_ran _ (session_of_refused files fuel (.resume .step) rfl)
  | next => exact spares_ran _ (session_of_refused files fuel (.resume .stepOver) rfl)
  | finish => exact spares_ran _ (session_of_refused files fuel (.resume .stepOut) rfl)
  | proceed => exact spares_ran _ (session_of_refused files fuel (.resume .proceed) rfl)
  | call => exact spares_call
  | reset => exact nofun
  | breakAt => exact spares_breakAt
  | watch => exact spares_watch
  | delete => exact spares_delete
  | clear => exact spares_report _ (session_of_refused files fuel .clearBreakpoints rfl)
  | backtrace | locals | globals | stack | memory | info | disassemble | help | quit =>
    exact fun _ => session_of_inspects rfl

theorem spares_react (fuel : Nat) (files : Files) (s : Session) (line : Line) :
    (react fuel files s line).Spares s := by
  cases line with
  | nothing => exact fun _ => rfl
  | command c args => exact spares_perform fuel files args s c
  | unknown word => exact spares_fail _

/-! ## Lines that only look -/

/-- The words that name the commands that only look, or end the session. -/
def inspectingWords : List String :=
  ["bt", "backtrace", "locals", "globals", "stack", "memory", "x", "info", "disas", "help", "h",
    "quit", "q", "exit"]

/-- A blank line, a comment, or a line whose first word asks for no more than a look. -/
def Passive (line : String) : Prop :=
  firstWord line = [] ∨ (firstWord line).head? = some '#' ∨
    String.ofList (firstWord line) ∈ inspectingWords

theorem inspects_of_mem {word : String} (h : word ∈ inspectingWords) :
    ∃ c, Command.ofWord? word = some c ∧ c.inspects = true := by
  have hall : ∀ w ∈ inspectingWords, (Command.ofWord? w).any Command.inspects = true := by decide
  exact (Option.any_eq_true _ _).mp (hall word h)

theorem session_react_of_passive {line : String} (h : Passive line) :
    (react fuel files s (Line.parse line)).session = s := by
  have hhead := head?_wordsOf line
  unfold Passive at h
  unfold Line.parse
  split
  · rfl
  · rename_i word args hwords
    rw [hwords, List.head?_cons] at hhead
    split at hhead
    · cases hhead
    · rename_i letters hne
      have hword : word = String.ofList (firstWord line) := Option.some.inj hhead
      have hletters : word.toList = firstWord line := by rw [hword, String.toList_ofList]
      rcases h with hblank | hcomment | hinspects
      · exact absurd hblank hne
      · have hsign : isComment word = true := by
          unfold isComment
          rw [hletters, hcomment]
          rfl
        rw [if_pos hsign]
        rfl
      · obtain ⟨c, hc, hlooks⟩ := inspects_of_mem (hword ▸ hinspects)
        split
        · rfl
        · rw [hc]
          exact session_of_inspects hlooks

/-- **Errors and inspections do not touch the session.** Whatever the session and the line:

* the line counts as one error or as none;
* if it counts as one, then the session is the one from before: its module with the path and the
  debug names, the breakpoints with the index to be given next, and the execution;
* so it is behind every line that is blank, a comment, or asks for no more than a look. -/
theorem execute_spares_session (fuel : Nat) (files : Files) (line : String) (sh : Shell) :
    ((sh.execute fuel files line).1.errors = sh.errors ∨
      (sh.execute fuel files line).1.errors = sh.errors + 1 ∧
        (sh.execute fuel files line).1.session = sh.session) ∧
    (Passive line → (sh.execute fuel files line).1.session = sh.session) := by
  refine ⟨?_, session_react_of_passive⟩
  have hspares := spares_react fuel files sh.session (Line.parse line)
  unfold execute
  simp only
  by_cases hfailed : (react fuel files sh.session (Line.parse line)).failed = true
  · rw [if_pos hfailed]
    exact Or.inr ⟨rfl, hspares hfailed⟩
  · rw [if_neg hfailed]
    exact Or.inl rfl

/-- A look at a frame that is not there is an error, and the session stays paused. -/
theorem execute_spares_session_paused :
    Passive " locals 7" ∧
      (execute 9 (fun _ => none) " locals 7" ⟨Session.paused, 2⟩).1.errors = 3 ∧
      (execute 9 (fun _ => none) " locals 7" ⟨Session.paused, 2⟩).1.session = Session.paused := by
  have hpassive : Passive " locals 7" := Or.inr (Or.inr (by decide))
  exact ⟨hpassive, by decide, (execute_spares_session 9 _ _ ⟨Session.paused, 2⟩).2 hpassive⟩

end Shell

end WasmDebugger
