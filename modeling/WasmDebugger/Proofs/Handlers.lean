import Mathlib.Data.List.Induction
import WasmDebugger.ImportBridge

/-!
# Which handler answers a call

A host registers handlers for functions and for names, and a later one replaces an earlier one.
Names are looked up as one text with a point between their two parts, so that names whose parts
contain points can share it.

* `Registration`, `registered`: what a host has registered, in this order.
* `Last`: the handler of the last registration of a kind.
* `Chosen`: the last handler for the function, or else the last one for a name that counts.
* `Clashes`: one name's module goes on, behind a point, with the beginning of the other's field.
* `key_eq_iff`: two names are looked up alike exactly if they are equal or clash. `not_clashes`:
  never when there is no point in either module.
* `Obeys`: a way to look handlers up in which the last registration of a kind wins.
* **`last_registered_runs`**: a call is answered by the handler that is chosen for its function, its
  name and the names that clash with it, and by no other.
* `clashing_name_answers`: a handler that is registered for one name answers a call of another.
-/

namespace WasmDebugger

namespace Handlers

/-! ## Keys -/

/-- The module of `b` goes on behind that of `a` with a point and the beginning of the field of `a`,
which ends in a point and the field of `b`. -/
def Splits (a b : ImportName) : Prop :=
  ∃ middle, b.module = a.module ++ "." ++ middle ∧ a.field = middle ++ "." ++ b.field

/-- **Different names that look the same with a point between their parts.** -/
def Clashes (a b : ImportName) : Prop := Splits a b ∨ Splits b a

variable {a b : ImportName}

theorem toList_key (a : ImportName) :
    (key a).toList = a.module.toList ++ '.' :: a.field.toList := by
  unfold key
  rw [String.toList_append, String.toList_append, List.append_assoc]
  rfl

theorem Splits.key_eq (h : Splits a b) : key a = key b := by
  obtain ⟨middle, hmodule, hfield⟩ := h
  unfold key
  rw [hmodule, hfield]
  simp only [String.append_assoc]

/-- What one module has more than the other begins with the point. -/
theorem splits_of_append {more : List Char}
    (hmodule : b.module.toList = a.module.toList ++ '.' :: more)
    (hfield : a.field.toList = more ++ '.' :: b.field.toList) : Splits a b := by
  refine ⟨String.ofList more, ?_, ?_⟩
  · apply String.toList_inj.mp
    simpa using hmodule
  · apply String.toList_inj.mp
    simpa using hfield

/-- Of two names with one key, either both modules are equal or one goes on behind a point. -/
theorem eq_or_splits_of_append {rest : List Char}
    (hmodule : b.module.toList = a.module.toList ++ rest)
    (hfield : '.' :: a.field.toList = rest ++ '.' :: b.field.toList) : a = b ∨ Splits a b := by
  cases rest with
  | nil =>
    rw [List.append_nil] at hmodule
    left
    obtain ⟨module, field⟩ := a
    obtain ⟨module', field'⟩ := b
    have hm : module' = module := String.toList_inj.mp hmodule
    have hf : field = field' := String.toList_inj.mp (List.cons.inj hfield).2
    rw [hm, hf]
  | cons c more =>
    obtain ⟨rfl, hmore⟩ := List.cons.inj hfield
    exact Or.inr (splits_of_append hmodule hmore)

/-- **Two names have one key exactly if they are equal or clash.** -/
theorem key_eq_iff : key a = key b ↔ a = b ∨ Clashes a b := by
  constructor
  · intro h
    have hlist : a.module.toList ++ '.' :: a.field.toList =
        b.module.toList ++ '.' :: b.field.toList := by
      rw [← toList_key, ← toList_key, h]
    rcases List.append_eq_append_iff.mp hlist with ⟨rest, hmodule, hfield⟩ | ⟨rest, hmodule, hfield⟩
    · exact (eq_or_splits_of_append hmodule hfield).imp_right Or.inl
    · exact (eq_or_splits_of_append hmodule hfield).imp Eq.symm Or.inr
  · rintro (rfl | h | h)
    · rfl
    · exact h.key_eq
    · exact h.key_eq.symm

/-- The module that goes on contains a point. -/
theorem Splits.point_mem (h : Splits a b) : '.' ∈ b.module.toList := by
  obtain ⟨middle, hmodule, -⟩ := h
  rw [hmodule]
  simp

/-- Names whose modules contain no point do not clash. -/
theorem not_clashes (ha : '.' ∉ a.module.toList) (hb : '.' ∉ b.module.toList) : ¬ Clashes a b := by
  rintro (h | h)
  · exact hb h.point_mem
  · exact ha h.point_mem

end Handlers

/-! ## Registrations -/

/-- A handler and what it is registered for. -/
inductive Registration where
  | byIndex (f : UInt32) (handler : Handler)
  | byName (name : ImportName) (handler : Handler)

namespace Registration

def handler : Registration → Handler
  | .byIndex _ handler | .byName _ handler => handler

/-- Registrations for a function. -/
def ForFunction (f : Nat) : Registration → Prop
  | .byIndex g _ => g.toNat = f
  | .byName _ _ => False

/-- Registrations for the names that count. -/
def ForName (counts : ImportName → Prop) : Registration → Prop
  | .byIndex _ _ => False
  | .byName name _ => counts name

instance (f : Nat) : DecidablePred (ForFunction f)
  | .byIndex g _ => inferInstanceAs (Decidable (g.toNat = f))
  | .byName _ _ => inferInstanceAs (Decidable False)

instance (counts : ImportName → Prop) [DecidablePred counts] : DecidablePred (ForName counts)
  | .byIndex _ _ => inferInstanceAs (Decidable False)
  | .byName name _ => inferInstanceAs (Decidable (counts name))

end Registration

namespace Handlers

open Registration (ForFunction ForName)

def register (h : Handlers) : Registration → Handlers
  | .byIndex f handler => h.addIndex f handler
  | .byName name handler => h.addName name handler

/-- The handlers of a host after some registrations. -/
def registered (rs : List Registration) : Handlers := rs.foldl register {}

/-- **The handler of the last registration of a kind.** -/
def Last (P : Registration → Prop) (rs : List Registration) (handler : Handler) : Prop :=
  ∃ before r after, rs = before ++ r :: after ∧ P r ∧ r.handler = handler ∧ ∀ r' ∈ after, ¬ P r'

/-- **The handler that a call should get**: the one last registered for the called function, or else
the one last registered for a name that counts, or else none. -/
inductive Chosen (counts : ImportName → Prop) (rs : List Registration) (call : ImportCall) :
    Option Handler → Prop where
  | byIndex {handler : Handler} (h : Last (ForFunction call.function) rs handler) :
      Chosen counts rs call (some handler)
  | byName {handler : Handler} (hf : ∀ r ∈ rs, ¬ ForFunction call.function r)
      (h : Last (ForName counts) rs handler) : Chosen counts rs call (some handler)
  | nobody (hf : ∀ r ∈ rs, ¬ ForFunction call.function r) (hn : ∀ r ∈ rs, ¬ ForName counts r) :
      Chosen counts rs call none

/-- What the host answers then. -/
def answer (call : ImportCall) : Option Handler → Reply
  | some handler => (handler call).reply
  | none => Bridge.noHandler call.name

variable {P Q : Registration → Prop} {counts counts' : ImportName → Prop}
  {rs before after : List Registration} {r : Registration} {handler : Handler} {call : ImportCall}
  {chosen : Option Handler} {h h' : Handlers} {look : Handlers → Option Handler}

/-- The last registration is of the kind, or the last one of the kind is before it. -/
theorem last_concat : Last P (rs ++ [r]) handler ↔
    P r ∧ r.handler = handler ∨ ¬ P r ∧ Last P rs handler := by
  constructor
  · rintro ⟨before, r', after, heq, hP, hhandler, hafter⟩
    rcases List.eq_nil_or_concat after with rfl | ⟨init, last, rfl⟩
    · obtain ⟨-, hr⟩ := List.append_inj' heq rfl
      cases hr
      exact Or.inl ⟨hP, hhandler⟩
    · have hsplit : rs ++ [r] = (before ++ r' :: init) ++ [last] := by simpa using heq
      obtain ⟨rfl, hr⟩ := List.append_inj' hsplit rfl
      cases hr
      exact Or.inr ⟨hafter r (by simp), before, r', init, rfl, hP, hhandler,
        fun r'' hr'' => hafter r'' (by simp [hr''])⟩
  · rintro (⟨hP, hhandler⟩ | ⟨hnot, before, r', after, rfl, hP, hhandler, hafter⟩)
    · exact ⟨rs, r, [], rfl, hP, hhandler, by simp⟩
    · refine ⟨before, r', after ++ [r], by simp, hP, hhandler, fun r'' hr'' => ?_⟩
      rcases List.mem_append.mp hr'' with hr'' | hr''
      · exact hafter r'' hr''
      · exact List.mem_singleton.mp hr'' ▸ hnot

/-- Kinds with the same registrations in the list have the same last one. -/
theorem Last.congr (hPQ : ∀ r ∈ rs, P r ↔ Q r) (h : Last P rs handler) : Last Q rs handler := by
  obtain ⟨before, r, after, rfl, hP, hhandler, hafter⟩ := h
  refine ⟨before, r, after, rfl, (hPQ r (by simp)).mp hP, hhandler, fun r' hr' hQ => ?_⟩
  exact hafter r' hr' ((hPQ r' (by simp [hr'])).mpr hQ)

/-- Only the names that are registered matter. -/
theorem Chosen.congr (hcounts : ∀ name handler, .byName name handler ∈ rs →
    (counts name ↔ counts' name)) (h : Chosen counts rs call chosen) :
    Chosen counts' rs call chosen := by
  have hnames : ∀ r ∈ rs, ForName counts r ↔ ForName counts' r := by
    intro r hr
    cases r with
    | byIndex _ _ => exact Iff.rfl
    | byName name handler => exact hcounts name handler hr
  cases h with
  | byIndex h => exact .byIndex h
  | byName hf h => exact .byName hf (h.congr hnames)
  | nobody hf hn => exact .nobody hf fun r hr hcount => hn r hr ((hnames r hr).mpr hcount)

/-! ## Looking up -/

/-- **Looking up a handler in a way in which the last registration of a kind wins**: nothing is
found at first, and a registration of the kind hides what was there. -/
structure Obeys (P : Registration → Prop) [DecidablePred P] (look : Handlers → Option Handler) :
    Prop where
  empty : look {} = none
  next : ∀ h r, look (register h r) = if P r then some r.handler else look h

theorem registered_concat : registered (rs ++ [r]) = register (registered rs) r := by
  unfold registered
  rw [List.foldl_append]
  rfl

section Obeys

variable [DecidablePred P]

/-- What is found after some registrations is what was registered last. -/
theorem Obeys.eq_some_iff (hlook : Obeys P look) :
    look (registered rs) = some handler ↔ Last P rs handler := by
  -- from behind, since the registration at the end hides those before it
  induction rs using List.reverseRecOn with
  | nil =>
    rw [show registered [] = {} from rfl, hlook.empty]
    refine iff_of_false (by simp) ?_
    rintro ⟨before, r, after, heq, -⟩
    exact absurd heq (by simp)
  | append_singleton rs r ih =>
    rw [registered_concat, hlook.next, last_concat, ← ih]
    split <;> simp [*]

theorem Obeys.eq_none_iff (hlook : Obeys P look) :
    look (registered rs) = none ↔ ∀ r ∈ rs, ¬ P r := by
  induction rs using List.reverseRecOn with
  | nil => simp [show registered [] = {} from rfl, hlook.empty]
  | append_singleton rs r ih =>
    rw [registered_concat, hlook.next, List.forall_mem_append, ← ih]
    split <;> simp [*]

/-- Later registrations keep two lookups equal. -/
theorem Obeys.foldl (hlook : Obeys P look) (heq : look h = look h') :
    look (after.foldl register h) = look (after.foldl register h') := by
  induction after generalizing h h' with
  | nil => exact heq
  | cons r rest ih =>
    refine ih ?_
    rw [hlook.next, hlook.next, heq]

/-- A registration of another kind does not matter. -/
theorem Obeys.spared (hlook : Obeys P look) (hr : ¬ P r) :
    look (registered (before ++ r :: after)) = look (registered (before ++ after)) := by
  unfold registered
  rw [List.foldl_append, List.foldl_append, List.foldl_cons]
  refine hlook.foldl ?_
  rw [hlook.next, if_neg hr]

end Obeys

/-- The handler for a function. -/
def indexed? (f : Nat) (h : Handlers) : Option Handler :=
  (h.byIndex.find? fun e => e.1.toNat = f).map (·.2)

/-- The handler under a key. -/
def named? (k : String) (h : Handlers) : Option Handler := h.byName.lookup k

theorem find?_eq_or : h.find? call =
    (h.indexed? call.function).or (h.named? (key call.name)) := by
  unfold find? indexed? named?
  cases h.byIndex.find? fun e => e.1.toNat = call.function <;> rfl

theorem obeys_indexed? (f : Nat) : Obeys (ForFunction f) (indexed? f) where
  empty := rfl
  next h r := by
    cases r with
    | byName name handler => rfl
    | byIndex g handler =>
      show (List.find? _ ((g, handler) :: h.byIndex)).map _ = _
      rw [List.find?_cons]
      by_cases hg : g.toNat = f
      · simp [ForFunction, hg, Registration.handler]
      · simp [ForFunction, hg, indexed?]

theorem obeys_named? (k : String) : Obeys (ForName fun name => key name = k) (named? k) where
  empty := rfl
  next h r := by
    cases r with
    | byIndex g handler => rfl
    | byName name handler =>
      show List.lookup k ((key name, handler) :: h.byName) = _
      rw [List.lookup_cons]
      by_cases hname : key name = k
      · simp [ForName, hname, Registration.handler]
      · rw [beq_false_of_ne (Ne.symm hname)]
        exact (if_neg hname).symm

/-- **The handler that is found is the one that is chosen**, when names count by their keys. -/
theorem find?_registered_iff : (registered rs).find? call = chosen ↔
    Chosen (fun name => key name = key call.name) rs call chosen := by
  have hindex := obeys_indexed? call.function
  have hname := obeys_named? (key call.name)
  rw [find?_eq_or]
  constructor
  · rintro rfl
    cases hf : (registered rs).indexed? call.function with
    | some handler => exact .byIndex (hindex.eq_some_iff.mp hf)
    | none =>
      have hf := hindex.eq_none_iff.mp hf
      cases hn : (registered rs).named? (key call.name) with
      | some handler => exact .byName hf (hname.eq_some_iff.mp hn)
      | none => exact .nobody hf (hname.eq_none_iff.mp hn)
  · intro h
    cases h with
    | byIndex h =>
      rw [hindex.eq_some_iff.mpr h]
      rfl
    | byName hf h =>
      rw [hindex.eq_none_iff.mpr hf, hname.eq_some_iff.mpr h]
      rfl
    | nobody hf hn =>
      rw [hindex.eq_none_iff.mpr hf, hname.eq_none_iff.mpr hn]
      rfl

theorem fulfill_host : (Bridge.host h).fulfill call = answer call (h.find? call) := by
  unfold Bridge.fulfill Bridge.respond
  cases h.find? call <;> rfl

/-- **The right handler answers**: a handler is chosen, or none is, and the host answers as that
says. -/
structure Rightly (counts : ImportName → Prop) (rs : List Registration) (call : ImportCall) :
    Prop where
  choice : ∃ chosen, Chosen counts rs call chosen
  answers : ∀ chosen, Chosen counts rs call chosen →
    (Bridge.host (registered rs)).fulfill call = answer call chosen

/-- By the keys of the names, the right handler answers. -/
theorem rightly_by_key (rs : List Registration) (call : ImportCall) :
    Rightly (fun name => key name = key call.name) rs call where
  choice := ⟨_, find?_registered_iff.mp rfl⟩
  answers chosen h := by rw [fulfill_host, find?_registered_iff.mpr h]

theorem Rightly.congr (hcounts : ∀ name handler, .byName name handler ∈ rs →
    (counts name ↔ counts' name)) (h : Rightly counts rs call) : Rightly counts' rs call where
  choice := h.choice.imp fun _ => Chosen.congr hcounts
  answers chosen hchosen :=
    h.answers chosen (hchosen.congr fun name handler hr => (hcounts name handler hr).symm)

/-- A registration for a name with another key does not change the answer. -/
theorem fulfill_spared {name : ImportName} (hname : key name ≠ key call.name) :
    (Bridge.host (registered (before ++ .byName name handler :: after))).fulfill call =
      (Bridge.host (registered (before ++ after))).fulfill call := by
  have hfunction : ¬ ForFunction call.function (.byName name handler) := id
  have hkey : ¬ ForName (fun name => key name = key call.name) (.byName name handler) := hname
  rw [fulfill_host, fulfill_host, find?_eq_or, find?_eq_or, (obeys_indexed? _).spared hfunction,
    (obeys_named? _).spared hkey]

/-! ## Answers -/

/-- **The handler registered last answers.** Whatever has been registered, a call is answered by the
last handler for its function, or else by the last one for a name that counts, or else it fails and
no handler runs:

* its own name counts and so do those that clash with it;
* if no name that clashes with it has been registered, its own name alone counts;
* a handler for any other name changes nothing, wherever it stands among the registrations. -/
theorem last_registered_runs (rs : List Registration) (call : ImportCall) :
    Rightly (fun name => name = call.name ∨ Clashes name call.name) rs call ∧
    ((∀ name handler, .byName name handler ∈ rs → ¬ Clashes name call.name) →
      Rightly (fun name => name = call.name) rs call) ∧
    ∀ before after name handler, rs = before ++ .byName name handler :: after →
      name ≠ call.name → ¬ Clashes name call.name →
        (Bridge.host (registered rs)).fulfill call =
          (Bridge.host (registered (before ++ after))).fulfill call := by
  refine ⟨?_, fun hclash => ?_, ?_⟩
  · exact (rightly_by_key rs call).congr fun _ _ _ => key_eq_iff
  · refine (rightly_by_key rs call).congr fun name handler hr => ?_
    rw [key_eq_iff]
    exact or_iff_left (hclash name handler hr)
  · rintro before after name handler rfl hname hclash
    exact fulfill_spared fun hkey => (key_eq_iff.mp hkey).elim hname hclash

/-- A handler that returns a number. -/
def returning (b : BitVec 32) : Handler := fun call =>
  ⟨.result ⟨some (.i32 b), call.globals, call.memory⟩, 0⟩

/-- What it replies when there is nothing else to hand back. -/
def returned (b : BitVec 32) : Reply := .result ⟨some (.i32 b), #[], .empty⟩

/-- A call of the first function under a name, without arguments. -/
def firstUnder (name : ImportName) : ImportCall := ⟨0, name, [], #[], .empty⟩

/-- Two handlers for one name, and then one for another name and one for another function. -/
def replacedHandlers : List Registration :=
  [.byName ⟨"env", "f"⟩ (returning 1), .byName ⟨"env", "f"⟩ (returning 2),
    .byName ⟨"env", "g"⟩ (returning 3), .byIndex 1 (returning 4)]

/-- The second one answers. -/
theorem last_registered_runs_replaced :
    (∀ name handler, .byName name handler ∈ replacedHandlers → ¬ Clashes name ⟨"env", "f"⟩) ∧
      (Bridge.host (registered replacedHandlers)).fulfill (firstUnder ⟨"env", "f"⟩) =
        returned 2 := by
  have hclash : ∀ name handler, .byName name handler ∈ replacedHandlers →
      ¬ Clashes name ⟨"env", "f"⟩ := by
    intro name handler hr
    have hmodule : name.module = "env" := by
      simp only [replacedHandlers, List.mem_cons, Registration.byName.injEq, List.not_mem_nil] at hr
      rcases hr with ⟨rfl, -⟩ | ⟨rfl, -⟩ | ⟨rfl, -⟩ | hr | hr <;> first | rfl | cases hr
    exact not_clashes (by rw [hmodule]; decide) (by decide)
  have hchosen : Chosen (fun name => name = ⟨"env", "f"⟩) replacedHandlers
      (firstUnder ⟨"env", "f"⟩) (some (returning 2)) :=
    .byName (by decide) ⟨[.byName ⟨"env", "f"⟩ (returning 1)], _, _, rfl, rfl, rfl, by decide⟩
  obtain ⟨-, hown, -⟩ := last_registered_runs replacedHandlers (firstUnder ⟨"env", "f"⟩)
  exact ⟨hclash, (hown hclash).answers _ hchosen⟩

/-- A handler for the field `c` of the module `a.b`. -/
def dottedHandler : List Registration := [.byName ⟨"a.b", "c"⟩ (returning 1)]

/-- **A handler for one name answers a call of another**: nobody is registered for the field `b.c`
of the module `a`, and the handler for `c` of `a.b` changes the answer. -/
theorem clashing_name_answers :
    Chosen (fun name => name = ⟨"a", "b.c"⟩) dottedHandler (firstUnder ⟨"a", "b.c"⟩) none ∧
      (Bridge.host (registered dottedHandler)).fulfill (firstUnder ⟨"a", "b.c"⟩) = returned 1 ∧
      (Bridge.host (registered [])).fulfill (firstUnder ⟨"a", "b.c"⟩) =
        .failed "no host handler for import 'a.b.c'" ∧
      ¬ Rightly (fun name => name = ⟨"a", "b.c"⟩) dottedHandler (firstUnder ⟨"a", "b.c"⟩) := by
  have hnobody : Chosen (fun name => name = ⟨"a", "b.c"⟩) dottedHandler (firstUnder ⟨"a", "b.c"⟩)
      none := .nobody (by decide) (by decide)
  have hanswer : (Bridge.host (registered dottedHandler)).fulfill (firstUnder ⟨"a", "b.c"⟩) =
      returned 1 := rfl
  refine ⟨hnobody, hanswer, rfl, fun h => ?_⟩
  have hnone := h.answers _ hnobody
  rw [hanswer] at hnone
  exact absurd hnone (by simp [returned, answer, Bridge.noHandler])

end Handlers

end WasmDebugger
