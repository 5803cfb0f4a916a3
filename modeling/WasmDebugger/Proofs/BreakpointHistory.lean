import WasmDebugger.Proofs.Coherence

/-!
# The history of the breakpoints

What is listed after any dialogue can be told from what was asked and answered alone.

* `Exchange.added?`, `Exchange.removes`: what an exchange does to the breakpoints.
* `Standing`: an entry that was added and has not been taken out since.
* `Tracks`: a registry that holds just these, and is to give the index that comes next.
* `Tracks.performed`: every request but a load that is granted keeps a registry on track.
* **`breakpoint_history`**: so it is after a load until the next one.
-/

namespace WasmDebugger.Session

open Breakpoints (Ordered mem_insertEntry_iff)

/-! ## What an exchange does to the breakpoints -/

namespace Exchange

/-- The answer to an addition that was granted. -/
def added? : Exchange → Option Answer
  | ⟨.addBreakpoint _, .ok answer⟩ => some answer
  | _ => none

/-- An entry under this index is taken out: by its deletion, or with all others. -/
def removes (index : UInt32) : Exchange → Bool
  | ⟨.deleteBreakpoint i, .ok _⟩ => i = index
  | ⟨.clearBreakpoints, .ok _⟩ => true
  | _ => false

/-- Neither an addition nor anything that takes an entry out. -/
structure Quiet (x : Exchange) : Prop where
  added : x.added? = none
  removes : ∀ index, x.removes index = false

theorem quiet_refused (request : Request) (error : RequestError) :
    Quiet ⟨request, .error error⟩ := by
  constructor <;> cases request <;> first | rfl | exact fun _ => rfl

theorem quiet_of_not_administers {request : Request} (h : request.administers = false)
    (answer : Except RequestError Answer) : Quiet ⟨request, answer⟩ := by
  constructor <;> cases request <;> first | rfl | exact fun _ => rfl | cases h

end Exchange

/-- What the additions that were granted were answered, in order. -/
def given (xs : List Exchange) : List Answer := xs.filterMap Exchange.added?

/-- The indices from zero on, as answers. -/
def countedUp (n : Nat) : List Answer := (List.range n).map fun k => .index (UInt32.ofNat k)

theorem countedUp_succ (n : Nat) :
    countedUp (n + 1) = countedUp n ++ [.index (UInt32.ofNat n)] := by
  unfold countedUp
  rw [List.range_succ, List.map_append, List.map_singleton]

/-- **An entry that stands**: it was added, and has not been taken out since. -/
def Standing (xs : List Exchange) (index : UInt32) (b : Breakpoint) : Prop :=
  ∃ before after, xs = before ++ ⟨.addBreakpoint b, .ok (.index index)⟩ :: after ∧
    ∀ x ∈ after, x.removes index = false

variable {files : Files} {fuel : Nat} {s s' : Session} {l : Loaded} {xs : List Exchange}
  {x : Exchange} {index : UInt32} {b : Breakpoint} {r : Breakpoints} {request : Request}
  {report : Report RequestError Answer}

theorem given_snoc (xs : List Exchange) (x : Exchange) :
    given (xs ++ [x]) = given xs ++ x.added?.toList := by
  unfold given
  rw [List.filterMap_append]
  cases hx : x.added? <;> simp [hx]

/-- After one more exchange what stood before stands, unless it has been taken out, and what has
been added. -/
theorem standing_snoc :
    Standing (xs ++ [x]) index b ↔ Standing xs index b ∧ x.removes index = false ∨
      x = ⟨.addBreakpoint b, .ok (.index index)⟩ := by
  constructor
  · -- the addition is the last exchange, or the last one comes behind it
    rintro ⟨before, after, hsplit, hafter⟩
    rcases List.eq_nil_or_concat' after with rfl | ⟨after, last, rfl⟩
    · exact Or.inr (List.singleton_inj.mp (List.append_inj' hsplit rfl).2)
    · have hsplit : xs ++ [x] =
          (before ++ ⟨.addBreakpoint b, .ok (.index index)⟩ :: after) ++ [last] := by
        simpa using hsplit
      obtain ⟨hxs, hx⟩ := List.append_inj' hsplit rfl
      cases List.singleton_inj.mp hx
      refine Or.inl ⟨⟨before, after, hxs, fun y hy => ?_⟩, ?_⟩
      · exact hafter y (List.mem_append_left _ hy)
      · exact hafter x (List.mem_append_right _ List.mem_cons_self)
  · rintro (⟨⟨before, after, rfl, hafter⟩, hx⟩ | rfl)
    · refine ⟨before, after ++ [x], by simp, fun y hy => ?_⟩
      rcases List.mem_append.mp hy with hy | hy
      · exact hafter y hy
      · cases List.mem_singleton.mp hy
        exact hx
    · exact ⟨xs, [], rfl, fun _ hy => absurd hy List.not_mem_nil⟩

theorem mem_given_of_standing (h : Standing xs index b) : .index index ∈ given xs := by
  obtain ⟨before, after, rfl, -⟩ := h
  unfold given
  exact List.mem_filterMap.mpr ⟨_, List.mem_append_right _ List.mem_cons_self, rfl⟩

/-! ## Registries on track -/

/-- **A registry on track** with what was asked and answered. -/
structure Tracks (xs : List Exchange) (r : Breakpoints) : Prop where
  indices : given xs = countedUp (given xs).length
  next : r.next = UInt32.ofNat (given xs).length
  ordered : Ordered r.entries
  standing : ∀ index b, (index, b) ∈ r.entries ↔ Standing xs index b

theorem tracks_nil : Tracks [] {} where
  indices := rfl
  next := rfl
  ordered := .nil
  standing index b := by
    constructor
    · exact fun h => absurd h List.not_mem_nil
    · rintro ⟨before, after, h, -⟩
      exact absurd h (by simp)

namespace Tracks

/-- After an exchange that adds nothing, the entries are those that it does not take out. -/
theorem thinned {entries : List (UInt32 × Breakpoint)} (h : Tracks xs r) (hx : x.added? = none)
    (ho : Ordered entries)
    (hentries : ∀ index b,
      (index, b) ∈ entries ↔ (index, b) ∈ r.entries ∧ x.removes index = false) :
    Tracks (xs ++ [x]) { r with entries := entries } := by
  have hgiven : given (xs ++ [x]) = given xs := by simp [given_snoc, hx]
  have hadded : ∀ index b, x ≠ ⟨.addBreakpoint b, .ok (.index index)⟩ := by
    rintro index b rfl
    exact absurd hx (by simp [Exchange.added?])
  constructor
  · rw [hgiven]
    exact h.indices
  · rw [hgiven]
    exact h.next
  · exact ho
  · intro index b
    rw [hentries, h.standing, standing_snoc, or_iff_left (hadded index b)]

theorem quiet (h : Tracks xs r) (hx : x.Quiet) : Tracks (xs ++ [x]) r :=
  h.thinned hx.added h.ordered fun index _ => (and_iff_left (hx.removes index)).symm

theorem deleted (h : Tracks xs r) (index : UInt32) :
    Tracks (xs ++ [⟨.deleteBreakpoint index, .ok (.deleted (r.remove index).1)⟩])
      (r.remove index).2 := by
  refine h.thinned rfl (h.ordered.filter _) fun i b => ?_
  rw [List.mem_filter]
  refine and_congr_right fun _ => ?_
  show (i != index) = true ↔ decide (index = i) = false
  rw [bne_iff_ne, decide_eq_false_iff_not]
  exact ne_comm

theorem cleared (h : Tracks xs r) :
    Tracks (xs ++ [⟨.clearBreakpoints, .ok .done⟩]) r.clear := by
  refine h.thinned rfl .nil fun i b => ?_
  simp [Exchange.removes]

/-- The next index is not taken as long as there are further ones. -/
theorem next_fresh (h : Tracks xs r) (hcount : (given xs).length < UInt32.size) (c : Breakpoint) :
    (r.next, c) ∉ r.entries := by
  -- what is listed under it would have been added as one of the fewer before
  intro hmem
  have hgiven := mem_given_of_standing ((h.standing _ _).mp hmem)
  rw [h.indices, h.next] at hgiven
  obtain ⟨j, hj, heq⟩ := List.mem_map.mp hgiven
  have hj : j < (given xs).length := List.mem_range.mp hj
  have heq : j % UInt32.size = (given xs).length % UInt32.size :=
    congrArg UInt32.toNat (Answer.index.inj heq)
  rw [Nat.mod_eq_of_lt (hj.trans hcount), Nat.mod_eq_of_lt hcount] at heq
  omega

/-- **An addition takes the next index**, and is listed under it. -/
theorem added (h : Tracks xs r) (hcount : (given xs).length < UInt32.size) (b : Breakpoint) :
    Tracks (xs ++ [⟨.addBreakpoint b, .ok (.index (r.add b).1)⟩]) (r.add b).2 := by
  have hgiven : given (xs ++ [⟨.addBreakpoint b, .ok (.index (r.add b).1)⟩]) =
      given xs ++ [.index r.next] := given_snoc _ _
  have hlength : (given xs ++ [Answer.index r.next]).length = (given xs).length + 1 := by simp
  constructor
  · rw [hgiven, hlength, countedUp_succ, ← h.indices, h.next]
  · rw [hgiven, hlength, UInt32.ofNat_add, ← h.next]
    rfl
  · exact h.ordered.insertEntry
  · intro index c
    show (index, c) ∈ Breakpoints.insertEntry r.next b r.entries ↔ _
    have hadded : (⟨.addBreakpoint b, .ok (.index (r.add b).1)⟩ : Exchange) =
        ⟨.addBreakpoint c, .ok (.index index)⟩ ↔ (index, c) = (r.next, b) := by
      constructor <;> rintro ⟨⟩ <;> rfl
    rw [mem_insertEntry_iff (h.next_fresh hcount), standing_snoc, h.standing, hadded, or_comm]
    simp [Exchange.removes]

/-- **Every request but a load that is granted keeps a registry on track.** -/
theorem performed (h : Tracks xs l.breakpoints) (hl : s.loaded = some l)
    (hp : s.Performed files request report)
    (hload : Exchange.loaded? ⟨request, report.answer⟩ = none)
    (hcount : (given (xs ++ [⟨request, report.answer⟩])).length ≤ UInt32.size) :
    ∃ l', report.session.loaded = some l' ∧
      Tracks (xs ++ [⟨request, report.answer⟩]) l'.breakpoints := by
  cases hp with
  | refused error => exact ⟨l, hl, h.quiet (Exchange.quiet_refused _ _)⟩
  | told hadministers _ => exact ⟨l, hl, h.quiet (Exchange.quiet_of_not_administers hadministers _)⟩
  | ran hadministers he _ =>
    cases hl.symm.trans he.loaded
    exact ⟨_, rfl, h.quiet (Exchange.quiet_of_not_administers hadministers _)⟩
  | reset =>
    refine ⟨{ l with execution := none }, ?_, ?_⟩
    · show s.loaded.map _ = _
      rw [hl]
      rfl
    · exact h.quiet (Exchange.quiet_of_not_administers rfl _)
  | loaded _ _ => cases hload
  | @added b _ hl' _ =>
    cases hl.symm.trans hl'
    refine ⟨_, rfl, h.added ?_ b⟩
    rw [given_snoc, List.length_append] at hcount
    exact hcount
  | deleted hl' =>
    cases hl.symm.trans hl'
    exact ⟨_, rfl, h.deleted _⟩
  | cleared hl' =>
    cases hl.symm.trans hl'
    exact ⟨_, rfl, h.cleared⟩

end Tracks

/-! ## Dialogues between two loads -/

/-- A load that is granted leaves a registry without entries. -/
theorem loaded_of_load {path : String} {answer : Answer}
    (h : (s.perform files fuel (.load path)).answer = .ok answer) :
    ∃ l, (s.perform files fuel (.load path)).session.loaded = some l ∧ l.breakpoints = {} := by
  have hcases := perform_cases files fuel s (.load path)
  generalize s.perform files fuel (.load path) = report at h hcases
  cases hcases with
  | refused _ => cases h
  | told hadministers _ | ran hadministers _ _ => cases hadministers
  | loaded _ _ => exact ⟨_, rfl, rfl⟩

/-- A registry that begins without entries is on track until the next load that is granted. -/
theorem tracks_of_dialogue {s₀ : Session} {l₀ : Loaded} (h : Dialogue s₀ xs s)
    (hl₀ : s₀.loaded = some l₀) (hempty : l₀.breakpoints = {})
    (hloads : ∀ x ∈ xs, x.loaded? = none) (hcount : (given xs).length ≤ UInt32.size) :
    ∃ l, s.loaded = some l ∧ Tracks xs l.breakpoints := by
  induction h with
  | opened => exact ⟨l₀, hl₀, hempty ▸ tracks_nil⟩
  | @performed xs s' files fuel request _ ih =>
    have hshorter : (given xs).length ≤ UInt32.size := by
      rw [given_snoc, List.length_append] at hcount
      omega
    obtain ⟨l, hl, htracks⟩ := ih (fun x hx => hloads x (List.mem_append_left _ hx)) hshorter
    exact htracks.performed hl (perform_cases files fuel s' request)
      (hloads _ (List.mem_append_right _ List.mem_cons_self)) hcount
  | hosted bridge _ ih => exact ih hloads hcount

/-- **The history of the breakpoints.** After a load that was granted, and until the next one:

* there are no entries at first;
* the additions that are granted are answered with zero, one, two and so on;
* what is listed, in increasing order, is what has been added and neither deleted nor cleared since,
  each under its index;
* a deletion answers whether its index is listed.

All that as long as indices do not repeat, which takes more than `2 ^ 32` additions. -/
theorem breakpoint_history {path : String} {answer : Answer}
    (hload : (s.perform files fuel (.load path)).answer = .ok answer)
    (h : Dialogue (s.perform files fuel (.load path)).session xs s')
    (hloads : ∀ x ∈ xs, x.loaded? = none) (hcount : (given xs).length ≤ UInt32.size) :
    (s.perform files fuel (.load path)).session.breakpoints = .ok [] ∧
    given xs = countedUp (given xs).length ∧
    ∃ entries, s'.breakpoints = .ok entries ∧
      (entries.Pairwise fun e e' => e.1 < e'.1) ∧
      (∀ index b, (index, b) ∈ entries ↔ Standing xs index b) ∧
      ∀ index, ∃ found, (s'.deleteBreakpoint index).answer = .ok found ∧
        (found = true ↔ ∃ b, (index, b) ∈ entries) := by
  obtain ⟨l₀, hl₀, hempty⟩ := loaded_of_load hload
  obtain ⟨l, hl, htracks⟩ := tracks_of_dialogue h hl₀ hempty hloads hcount
  refine ⟨?_, htracks.indices, l.breakpoints.entries, ?_, htracks.ordered, htracks.standing,
    fun index => ⟨(l.breakpoints.remove index).1, ?_, ?_⟩⟩
  · unfold breakpoints
    rw [hl₀]
    simp only [hempty]
  · unfold breakpoints
    rw [hl]
  · unfold deleteBreakpoint
    rw [hl]
  · show (l.breakpoints.entries.lookup index).isSome = true ↔ _
    rw [Option.isSome_iff_exists]
    exact exists_congr fun b => htracks.ordered.lookup_eq_some_iff

/-- Three additions, the first deleted again, with a refused addition, a load that fails and a reset
in between. -/
def nopExchanges : List Exchange :=
  [⟨.addBreakpoint (.code ⟨0, 1⟩), .ok (.index 0)⟩,
    ⟨.addBreakpoint (.code ⟨0, 7⟩), .error (.session .breakpointPosition)⟩,
    ⟨.addBreakpoint (.memory .write 0 4), .ok (.index 1)⟩,
    ⟨.deleteBreakpoint 0, .ok (.deleted true)⟩,
    ⟨.load "other.wasm", .error (.load ⟨.cannotOpen "other.wasm", 0⟩)⟩,
    ⟨.reset, .ok .done⟩,
    ⟨.addBreakpoint (.code ⟨0, 0⟩), .ok (.index 2)⟩]

/-- What stands after them. -/
def nopEntries : List (UInt32 × Breakpoint) := [(1, .memory .write 0 4), (2, .code ⟨0, 0⟩)]

theorem dialogue_nopExchanges :
    Dialogue (nopSession {} none) nopExchanges (nopSession ⟨nopEntries, 3⟩ none) := by
  have h₀ : Dialogue (nopSession {} none) [] (nopSession {} none) := .opened
  have h₁ := h₀.performed nopFiles 9 (.addBreakpoint (.code ⟨0, 1⟩))
  have h₂ := h₁.performed nopFiles 9 (.addBreakpoint (.code ⟨0, 7⟩))
  have h₃ := h₂.performed nopFiles 9 (.addBreakpoint (.memory .write 0 4))
  have h₄ := h₃.performed nopFiles 9 (.deleteBreakpoint 0)
  have h₅ := h₄.performed (fun _ => none) 9 (.load "other.wasm")
  have h₆ := h₅.performed nopFiles 9 .reset
  exact h₆.performed nopFiles 9 (.addBreakpoint (.code ⟨0, 0⟩))

theorem breakpoint_history_nop :
    Dialogue (({} : Session).perform nopFiles 9 (.load "nop.wasm")).session nopExchanges
        (nopSession ⟨nopEntries, 3⟩ none) ∧
      given nopExchanges = [.index 0, .index 1, .index 2] ∧
      (nopSession ⟨nopEntries, 3⟩ none).breakpoints = .ok nopEntries ∧
      ∀ index b, (index, b) ∈ nopEntries ↔ Standing nopExchanges index b := by
  have hload : (({} : Session).perform nopFiles 9 (.load "nop.wasm")).answer = .ok .done := by
    rw [perform_load_nopFiles]
  have hdialogue : Dialogue (({} : Session).perform nopFiles 9 (.load "nop.wasm")).session
      nopExchanges (nopSession ⟨nopEntries, 3⟩ none) := by
    rw [perform_load_nopFiles]
    exact dialogue_nopExchanges
  have hloads : ∀ x ∈ nopExchanges, x.loaded? = none := by simp [nopExchanges, Exchange.loaded?]
  obtain ⟨-, -, entries, hentries, -, hstanding, -⟩ :=
    breakpoint_history hload hdialogue hloads (by decide)
  cases hentries
  exact ⟨hdialogue, rfl, rfl, hstanding⟩

end WasmDebugger.Session
