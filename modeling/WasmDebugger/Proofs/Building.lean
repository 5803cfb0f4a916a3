import WasmDebugger.Proofs.Bodies

/-!
# Modules under construction

What a sequence of calls makes of a fresh builder, when any of them may be refused.

* `Builder.built`: the builder after some calls.
* `Builder.Orderly`: the order of the functions, with the mark that it rests on, and the types.
* `Module.Keeps`: nothing is taken away or moved. Only a builder that finishes gives its module up.
* **`built_invariants`**: the order of the functions, their bodies, the types, and the functions
  that the answered indices stand for.
-/

namespace WasmDebugger

namespace Module

variable {m m' m'' : Module} {t : FuncType}

/-! ## Types -/

/-- A signature that is known is not added again. -/
theorem addType_cases (m : Module) (t : FuncType) :
    (∃ q : Nat, m.types[q]? = some t ∧ m.addType t = (q.toUInt32, m)) ∨
      (t ∉ m.types ∧
        m.addType t = (m.types.size.toUInt32, { m with types := m.types.push t })) := by
  unfold addType
  split
  · rename_i q hq
    obtain ⟨hlt, ht, -⟩ := Array.findIdx?_eq_some_iff_getElem.mp hq
    exact Or.inl ⟨q, Array.getElem?_eq_some_iff.mpr ⟨hlt, of_decide_eq_true ht⟩, rfl⟩
  · rename_i hnone
    refine Or.inr ⟨fun hmem => ?_, rfl⟩
    exact of_decide_eq_false (Array.findIdx?_eq_none_iff.mp hnone t hmem) rfl

/-- The index of a signature is its position. -/
theorem exists_type (m : Module) (t : FuncType) :
    ∃ q : Nat, (m.addType t).1 = q.toUInt32 ∧ (m.addType t).2.types[q]? = some t := by
  rcases addType_cases m t with ⟨q, hq, he⟩ | ⟨-, he⟩
  · exact ⟨q, by rw [he], by rw [he]; exact hq⟩
  · exact ⟨m.types.size, by rw [he], by rw [he]; exact Array.getElem?_push_size⟩

theorem getElem?_push_of_some {α : Type} {xs : Array α} {a b : α} {q : Nat}
    (h : xs[q]? = some a) : (xs.push b)[q]? = some a := by
  rw [Array.getElem?_push_lt (Array.getElem?_eq_some_iff.mp h).1]
  exact congrArg some (Array.getElem?_eq_some_iff.mp h).2

/-- Interning a signature moves none. -/
theorem getElem?_addType {u : FuncType} {q : Nat} (h : m.types[q]? = some u) :
    (m.addType t).2.types[q]? = some u := by
  rcases addType_cases m t with ⟨q', -, he⟩ | ⟨-, he⟩
  · rwa [he]
  · rw [he]
    exact getElem?_push_of_some h

theorem nodup_addType (h : m.types.toList.Nodup) : (m.addType t).2.types.toList.Nodup := by
  rcases addType_cases m t with ⟨q, -, he⟩ | ⟨hnew, he⟩
  · rwa [he]
  · rw [he]
    show (m.types.push t).toList.Nodup
    rw [Array.toList_push, List.nodup_append]
    refine ⟨h, by simp, fun u hu v hv => ?_⟩
    rintro rfl
    rw [List.mem_singleton.mp hv] at hu
    exact hnew (Array.mem_toList_iff.mp hu)

/-! ## What calls preserve -/

/-- Every type and every function is still there, in its place. -/
structure Keeps (m m' : Module) : Prop where
  types : ∀ {q : Nat} {t}, m.types[q]? = some t → m'.types[q]? = some t
  functions : ∀ {p : Nat} {f}, m.functions[p]? = some f → m'.functions[p]? = some f

theorem Keeps.trans (h : m.Keeps m') (h' : m'.Keeps m'') : m.Keeps m'' :=
  ⟨fun ht => h'.types (h.types ht), fun hf => h'.functions (h.functions hf)⟩

/-- One more at the end, which is an imported one only behind imported ones. -/
theorem importsFirst_concat {items : List Function} {f : Function}
    (h : ImportsFirst Function.isImported items)
    (horder : f.isImported = true → ∀ g ∈ items, g.isImported = true) :
    ImportsFirst Function.isImported (items ++ [f]) := by
  by_cases hf : f.isImported = true
  · refine ⟨items ++ [f], [], by simp, fun g hg => ?_, by simp⟩
    rcases List.mem_append.mp hg with hg | hg
    · exact horder hf g hg
    · rwa [List.mem_singleton.mp hg]
  · obtain ⟨imported, own, rfl, himported, hown⟩ := h
    refine ⟨imported, own ++ [f], by simp, himported, fun g hg => ?_⟩
    rcases List.mem_append.mp hg with hg | hg
    · exact hown g hg
    · rw [List.mem_singleton.mp hg]
      exact eq_false_of_ne_true hf

/-- A position is its index as long as there are no more than `2 ^ 32` of them. -/
theorem toNat_position {α : Type} {xs : Array α} {a : α} {p : Nat} (h : xs[p]? = some a)
    (hsize : xs.size ≤ UInt32.size) : p.toUInt32.toNat = p := by
  have hlt : p < UInt32.size := Nat.lt_of_lt_of_le (Array.getElem?_eq_some_iff.mp h).1 hsize
  exact UInt32.toNat_ofNat_of_lt' hlt

end Module

namespace Builder

open WasmDebugger.Module

variable {b : Builder} {c : BuilderCall} {t : FuncType} {i : UInt32}

/-- The builder after calls, some of which may have been refused. -/
def built (calls : List BuilderCall) : Builder := calls.foldl after {}

theorem built_append (before later : List BuilderCall) :
    built (before ++ later) = later.foldl after (built before) :=
  List.foldl_append

/-- **A call takes nothing away**, even one that is refused, unless it hands out the module. -/
theorem keeps_after (b : Builder) (hc : c ≠ .finish) : b.module.Keeps (b.after c).module := by
  cases b.adds_after c with
  | nothing _ htypes hfunctions _ => exact ⟨fun h => htypes ▸ h, fun h => hfunctions ▸ h⟩
  | type t _ htypes hfunctions _ =>
    exact ⟨fun h => htypes ▸ getElem?_addType h, fun h => hfunctions ▸ h⟩
  | function t f _ _ _ _ htypes hfunctions _ _ =>
    exact ⟨fun h => htypes ▸ getElem?_addType h, fun h => hfunctions ▸ getElem?_push_of_some h⟩
  | finish hfinish _ _ _ => exact absurd hfinish hc

theorem keeps_foldl (b : Builder) {later : List BuilderCall} (hl : .finish ∉ later) :
    b.module.Keeps (later.foldl after b).module := by
  refine List.foldlRecOn later after (motive := fun b' => b.module.Keeps b'.module) ⟨id, id⟩
    fun b' h c hc => h.trans (keeps_after b' ?_)
  rintro rfl
  exact hl hc

/-- A call adds no function but the one that it asks for. -/
theorem mem_functions_after {f : Function} (hf : f ∈ (b.after c).module.functions) :
    f ∈ b.module.functions ∨ c.Requests f := by
  cases b.adds_after c with
  | nothing _ _ hfunctions _ | type _ _ _ hfunctions _ => exact Or.inl (hfunctions ▸ hf)
  | function _ g _ hg _ _ _ hfunctions _ _ =>
    rw [hfunctions, Array.mem_push] at hf
    rcases hf with hf | rfl
    · exact Or.inl hf
    · exact Or.inr hg
  | finish _ _ hfunctions _ =>
    rw [hfunctions] at hf
    exact absurd hf (Array.not_mem_empty f)

/-- **The invariant of a builder.** As long as it has not marked that a function has been defined
there is none, so that one more import comes behind imports. -/
structure Orderly (b : Builder) : Prop where
  importsFirst : ImportsFirst Function.isImported b.module.functions.toList
  unmarked : b.sawDefined = false → ∀ f ∈ b.module.functions, f.isImported = true
  distinct : b.module.types.toList.Nodup

theorem orderly_of_empty (hfunctions : b.module.functions = #[]) (htypes : b.module.types = #[]) :
    b.Orderly where
  importsFirst := ⟨[], [], by rw [hfunctions]; rfl, by simp, by simp⟩
  unmarked _ f hf := by
    rw [hfunctions] at hf
    exact absurd hf (Array.not_mem_empty f)
  distinct := by
    rw [htypes]
    exact List.nodup_nil

theorem Orderly.after (h : b.Orderly) (c : BuilderCall) : (b.after c).Orderly := by
  cases b.adds_after c with
  | nothing _ htypes hfunctions hmark =>
    exact ⟨hfunctions ▸ h.importsFirst, hfunctions ▸ hmark ▸ h.unmarked, htypes ▸ h.distinct⟩
  | type t _ htypes hfunctions hmark =>
    exact ⟨hfunctions ▸ h.importsFirst, hfunctions ▸ hmark ▸ h.unmarked,
      htypes ▸ nodup_addType h.distinct⟩
  | function t f _ _ _ _ htypes hfunctions horder hmark =>
    have himports : f.isImported = true → ∀ g ∈ b.module.functions, g.isImported = true :=
      fun himp => h.unmarked (horder himp)
    refine ⟨?_, fun hunmarked g hg => ?_, htypes ▸ nodup_addType h.distinct⟩
    · rw [hfunctions, Array.toList_push]
      exact importsFirst_concat h.importsFirst fun himp g hg =>
        himports himp g (Array.mem_toList_iff.mp hg)
    · have himp : f.isImported = true := by simpa [hmark] using hunmarked
      rw [hfunctions, Array.mem_push] at hg
      rcases hg with hg | rfl
      · exact himports himp g hg
      · exact himp
  | finish _ htypes hfunctions _ => exact orderly_of_empty hfunctions htypes

/-! ## All calls -/

theorem orderly_built (calls : List BuilderCall) : (built calls).Orderly :=
  List.foldlRecOn calls after (orderly_of_empty rfl rfl) fun _ h c _ => h.after c

/-- **Every function is there because a call has asked for it.** -/
theorem exists_request (calls : List BuilderCall) :
    ∀ f ∈ (built calls).module.functions, ∃ c ∈ calls, c.Requests f := by
  have hfresh : ∀ f ∈ ({} : Builder).module.functions, ∃ c ∈ calls, c.Requests f :=
    fun f hf => absurd hf (Array.not_mem_empty f)
  refine List.foldlRecOn calls after
    (motive := fun b => ∀ f ∈ b.module.functions, ∃ c ∈ calls, c.Requests f) hfresh
    fun b ih c hc f hf => ?_
  rcases mem_functions_after hf with hf | hrequests
  · exact ih f hf
  · exact ⟨c, hc, hrequests⟩

/-- **Indices keep their functions.** The answered index is a position modulo `2 ^ 32`. From then
on the function that was asked for stands there, and its signature in the types. -/
theorem exists_function_of_reply (before : List BuilderCall) (ht : c.signature? = some t)
    (hreply : (built before).reply c = .ok (.index i)) :
    ∃ (f : Function) (q : Nat), c.Requests f ∧
      i = (built before).module.functions.size.toUInt32 ∧ f.type = q.toUInt32 ∧
      ∀ later, .finish ∉ later →
        (built (before ++ c :: later)).module.functions[(built before).module.functions.size]? =
            some f ∧
          (built (before ++ c :: later)).module.types[q]? = some t := by
  cases (built before).adds_after c with
  | nothing hrefused _ _ _ | type _ hrefused _ _ _ =>
    rcases hrefused with hnone | ⟨e, he⟩
    · rw [hnone] at ht
      cases ht
    · rw [he] at hreply
      cases hreply
  | function t' f ht' hf htype hreply' htypes hfunctions _ _ =>
    obtain rfl : t' = t := Option.some.inj (ht'.symm.trans ht)
    obtain ⟨q, hq, hat⟩ := exists_type (built before).module t'
    rw [hreply'] at hreply
    cases hreply
    refine ⟨f, q, hf, rfl, htype.trans hq, fun later hl => ?_⟩
    have hkeeps := keeps_foldl ((built before).after c) hl
    rw [built_append]
    refine ⟨hkeeps.functions ?_, hkeeps.types (htypes ▸ hat)⟩
    rw [hfunctions]
    exact Array.getElem?_push_size
  | finish hc _ _ _ =>
    rw [hc] at ht
    cases ht

/-- **What holds of every module under construction**, whichever calls were refused.

* The host's functions come first. They have no body. The body of every other function comes from a
  call. It is well bracketed, so that it closes with the `end` of the function, every opener and
  every `else` in it names an `end`, and all targets are the right ones, unless the body was given
  with an `if` that names an arm beforehand.
* No signature occurs twice.
* A call for a function that is not refused answers with its position modulo `2 ^ 32`. Whatever the
  later calls are, the same function stands there. So its index and the signature that was given
  belong to it for good, unless more functions or types than `2 ^ 32` were needed for it.

All this is said of the module in the builder, which is also the one that a call of `finish` hands
out. From then on the builder has another module. -/
theorem built_invariants :
    (∀ calls, ImportsFirst Function.isImported (built calls).module.functions.toList ∧
      (∀ f ∈ (built calls).module.functions, f.isImported = true → f.code? = none) ∧
      (∀ f ∈ (built calls).module.functions, f.isImported = false →
        ∃ code, f.code? = some code ∧ code.back? = some .blockEnd ∧
          Nesting.WellBracketed code.toList ∧ Nesting.EndsNamed code.toList ∧
          ∃ c ∈ calls, c.Requests f ∧ (c.Unarmed → Nesting.Resolved code)) ∧
      (built calls).module.types.toList.Nodup) ∧
    ∀ (before : List BuilderCall) (c : BuilderCall) (t : FuncType) (i : UInt32),
      c.signature? = some t → (built before).reply c = .ok (.index i) →
      ∃ (f : Function) (q : Nat), c.Requests f ∧
        i = (built before).module.functions.size.toUInt32 ∧ f.type = q.toUInt32 ∧
        ∀ later, .finish ∉ later →
          (built (before ++ c :: later)).module.functions[(built before).module.functions.size]? =
              some f ∧
            (built (before ++ c :: later)).module.types[q]? = some t ∧
            ((built (before ++ [c])).module.functions.size ≤ UInt32.size →
              (built (before ++ [c])).module.types.size ≤ UInt32.size →
              (built (before ++ c :: later)).module.functions[i.toNat]? = some f ∧
              (built (before ++ c :: later)).module.funcType? i.toNat = some t) := by
  refine ⟨fun calls => ⟨(orderly_built calls).importsFirst, fun f _ himp => ?_,
    fun f hf hown => ?_, (orderly_built calls).distinct⟩, ?_⟩
  · cases f with
    | imported _ _ => rfl
    | defined _ _ _ => cases himp
  · obtain ⟨c, hc, hrequests⟩ := exists_request calls f hf
    cases hrequests with
    | imported => cases hown
    | @defined t locals body type code hcode hbracketed hends hresolved =>
      refine ⟨code, rfl, ?_, hbracketed, hends, .addFunction t locals body, hc,
        .defined hcode hbracketed hends hresolved, hresolved⟩
      obtain ⟨items, -, hcode⟩ := hbracketed
      rw [← Array.getLast?_toList, hcode]
      exact List.getLast?_concat
  · intro before c t i ht hreply
    obtain ⟨f, q, hf, rfl, hq, hstays⟩ := exists_function_of_reply before ht hreply
    refine ⟨f, q, hf, rfl, hq, fun later hl => ?_⟩
    obtain ⟨hat, htype⟩ := hstays later hl
    obtain ⟨hfirst, hfirstType⟩ := hstays [] List.not_mem_nil
    refine ⟨hat, htype, fun hfunctions htypes => ?_⟩
    rw [toNat_position hfirst hfunctions]
    refine ⟨hat, ?_⟩
    unfold funcType?
    rw [hat]
    show (built (before ++ c :: later)).module.types[f.type.toNat]? = some t
    rw [hq, toNat_position hfirstType htypes]
    exact htype

/-- An import, and a function that is refused for a block without its `end`. -/
def refusedFirst : List BuilderCall :=
  [.importFunction ⟨"env", "tick"⟩ ⟨[], []⟩, .addFunction ⟨[.i32], []⟩ [] [.block none none]]

/-- A function of the import's signature. -/
def idle : BuilderCall := .addFunction ⟨[], []⟩ [.i64] [.ret]

/-- An import that comes too late. -/
def refusedLater : List BuilderCall := [.importFunction ⟨"env", "late"⟩ ⟨[], [.i32]⟩]

/-- The signature of the refused function is among the types. -/
theorem built_refusedFirst : built refusedFirst =
    ⟨{ types := #[⟨[], []⟩, ⟨[.i32], []⟩], functions := #[.imported 0 ⟨"env", "tick"⟩] },
      false⟩ := by
  have himport : after {} (.importFunction ⟨"env", "tick"⟩ ⟨[], []⟩) =
      ⟨{ types := #[⟨[], []⟩], functions := #[.imported 0 ⟨"env", "tick"⟩] }, false⟩ := by
    unfold after perform importFunction addType
    simp only [Array.findIdx?_empty]
    rfl
  have hadd : after ⟨{ types := #[⟨[], []⟩], functions := #[.imported 0 ⟨"env", "tick"⟩] }, false⟩
      (.addFunction ⟨[.i32], []⟩ [] [.block none none]) =
      ⟨{ types := #[⟨[], []⟩, ⟨[.i32], []⟩], functions := #[.imported 0 ⟨"env", "tick"⟩] },
        false⟩ := by
    unfold after perform addFunction addType
    simp only [List.findIdx?_toArray]
    rfl
  exact (congrArg (after · _) himport).trans hadd

theorem addFunction_idle : (built refusedFirst).addFunction ⟨[], []⟩ [.i64] [.ret] = (.ok 1,
    ⟨{ types := #[⟨[], []⟩, ⟨[.i32], []⟩],
       functions := #[.imported 0 ⟨"env", "tick"⟩, .defined 0 [.i64] #[.ret, .blockEnd]] },
      true⟩) := by
  rw [built_refusedFirst]
  unfold addFunction addType
  simp only [List.findIdx?_toArray]
  rfl

theorem built_invariants_between :
    (built refusedFirst).reply idle = .ok (.index 1) ∧
      (built (refusedFirst ++ [idle])).module.functions.size = 2 ∧
      (built (refusedFirst ++ [idle])).module.types.size = 2 ∧
      ∃ f code, idle.Requests f ∧ f.code? = some code ∧ Nesting.Resolved code ∧
        (built (refusedFirst ++ idle :: refusedLater)).module.functions[1]? = some f ∧
        (built (refusedFirst ++ idle :: refusedLater)).module.funcType? 1 = some ⟨[], []⟩ := by
  have hreply : (built refusedFirst).reply idle = .ok (.index 1) :=
    congrArg (·.1.map BuilderAnswer.index) addFunction_idle
  have hidle := congrArg (·.2.module) addFunction_idle
  have hfunctions : (built (refusedFirst ++ [idle])).module.functions.size = 2 :=
    congrArg (·.functions.size) hidle
  have htypes : (built (refusedFirst ++ [idle])).module.types.size = 2 :=
    congrArg (·.types.size) hidle
  obtain ⟨f, q, hf, -, -, hstays⟩ := built_invariants.2 refusedFirst idle ⟨[], []⟩ 1 rfl hreply
  obtain ⟨-, -, hindex⟩ := hstays refusedLater (by simp [refusedLater])
  obtain ⟨hat, htype⟩ := hindex (by rw [hfunctions]; decide) (by rw [htypes]; decide)
  have hown : f.isImported = false := by
    cases hf
    rfl
  have hunarmed : ∀ c ∈ refusedFirst ++ idle :: refusedLater, c.Unarmed := by
    simp [refusedFirst, idle, refusedLater, BuilderCall.Unarmed, Nesting.Unarmed]
  obtain ⟨code, hcode, -, -, -, c, hc, -, hresolved⟩ :=
    (built_invariants.1 (refusedFirst ++ idle :: refusedLater)).2.2.1 f
      (Array.mem_of_getElem? hat) hown
  exact ⟨hreply, hfunctions, htypes, f, code, hf, hcode, hresolved (hunarmed c hc), hat, htype⟩

end Builder

end WasmDebugger
