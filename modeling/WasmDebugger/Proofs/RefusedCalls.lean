import WasmDebugger.Proofs.Building

/-!
# Refused calls

What a refused call leaves behind in a builder, and what later calls notice of it.

* `BuilderCall.interned?`: the signature that a call has interned by the time it can be refused.
* `Builder.untyped`: a builder without the signatures of its module. What a call adds to the rest
  depends on the rest alone (`untyped_after`), and so does its answer, unless it asks for a
  signature or the module (`reply_untyped`).
* `Builder.Besides`: one builder has one signature besides those of another, and differs in nothing
  else but the numbers of the signatures. Calls keep it (`Besides.after`, `Besides.foldl`), until
  the module is handed out; from then on there is no difference (`foldl_eq_of_finish`).
* **`refused_unchanged_iff`**: a refused call leaves the builder as it was, unless a new signature
  came with a malformed body.
-/

namespace WasmDebugger

/-- The signature that a call has interned by the time it can be refused. -/
def BuilderCall.interned? : BuilderCall → Option FuncType
  | .addFunction t _ _ => some t
  | _ => none

namespace Module

variable {m m' : Module} {t : FuncType} {p : Nat}

/-! ## One refused call -/

theorem addGlobal_of_type {init : Value} {u : ValueType} (h : init.type = u) (m : Module)
    (isMutable : Bool) :
    m.addGlobal u isMutable init = (.ok m.globals.size.toUInt32,
      { m with globals := m.globals.push ⟨u, isMutable, .init (.const init)⟩ }) :=
  if_pos h

theorem addGlobal_of_ne {init : Value} {u : ValueType} (h : init.type ≠ u) (m : Module)
    (isMutable : Bool) : m.addGlobal u isMutable init = (.error .initializerType, m) :=
  if_neg h

theorem addMemory_of_empty (h : m.memories.isEmpty) (limits : Limits) :
    m.addMemory limits = (.ok 0, { m with memories := m.memories.push ⟨limits, none⟩ }) :=
  if_pos h

theorem addMemory_of_not_empty (h : ¬m.memories.isEmpty) (limits : Limits) :
    m.addMemory limits = (.error .secondMemory, m) :=
  if_neg h

theorem addType_eq_self_iff : (m.addType t).2 = m ↔ t ∈ m.types := by
  rcases addType_cases m t with ⟨q, hq, he⟩ | ⟨hnew, he⟩
  · rw [he]
    exact iff_of_true rfl (Array.mem_of_getElem? hq)
  · rw [he]
    refine iff_of_false (fun heq => ?_) hnew
    have hsize := congrArg (·.types.size) heq
    simp at hsize

/-- The module without its signatures, and without the numbers that its functions have for them. -/
def untyped (m : Module) : Module :=
  { m with types := #[], functions := m.functions.map (Function.withType 0) }

theorem map_withType (fs : Array Function) :
    (fs.map (Function.withType 0)).map (Function.withType 0) = fs.map (Function.withType 0) := by
  rw [Array.map_map]
  refine Array.map_congr_left fun f _ => ?_
  cases f <;> rfl

theorem untyped_untyped (m : Module) : m.untyped.untyped = m.untyped := by
  unfold untyped
  rw [map_withType]

theorem untyped_addType (m : Module) (t : FuncType) : (m.addType t).2.untyped = m.untyped := by
  rcases addType_cases m t with ⟨q, -, he⟩ | ⟨-, he⟩ <;> rw [he]
  rfl

theorem size_untyped (m : Module) : m.untyped.functions.size = m.functions.size :=
  Array.size_map

/-- One more function. -/
theorem untyped_push (m : Module) (t : FuncType) (f : Function) :
    ({ (m.addType t).2 with functions := m.functions.push f } : Module).untyped =
      { m.untyped with functions := m.untyped.functions.push (f.withType 0) } := by
  have hrest := untyped_addType m t
  unfold untyped at hrest ⊢
  rw [Array.map_push]
  injection hrest
  congr

theorem mem_types_addType {u : FuncType} : u ∈ (m.addType t).2.types ↔ u ∈ m.types ∨ u = t := by
  rcases addType_cases m t with ⟨q, hq, he⟩ | ⟨-, he⟩
  · rw [he]
    refine ⟨Or.inl, ?_⟩
    rintro (hu | rfl)
    · exact hu
    · exact Array.mem_of_getElem? hq
  · rw [he]
    exact Array.mem_push

/-- Every function has a signature. -/
def Typed (m : Module) : Prop := ∀ f ∈ m.functions, f.type.toNat < m.types.size

theorem Keeps.types_size_le (h : m.Keeps m') : m.types.size ≤ m'.types.size := by
  by_contra hlt
  have hat := h.types (Array.getElem?_eq_getElem (Nat.lt_of_not_le hlt))
  rw [Array.getElem?_eq_none (Nat.le_refl _)] at hat
  cases hat

theorem funcType?_of_function {f : Function} (hf : m.functions[p]? = some f) :
    m.funcType? p = m.types[f.type.toNat]? := by
  unfold funcType?
  rw [hf]

theorem Typed.exists_funcType (h : m.Typed) (hp : p < m.functions.size) :
    ∃ t, m.funcType? p = some t := by
  have hlt := h _ (Array.getElem_mem hp)
  rw [funcType?_of_function (Array.getElem?_eq_getElem hp)]
  exact ⟨_, Array.getElem?_eq_getElem hlt⟩

theorem funcType?_of_size_le (hp : m.functions.size ≤ p) : m.funcType? p = none := by
  unfold funcType?
  rw [Array.getElem?_eq_none hp]

theorem Keeps.funcType? (h : m.Keeps m') (ht : m.funcType? p = some t) :
    m'.funcType? p = some t := by
  cases hf : m.functions[p]? with
  | none =>
    unfold Module.funcType? at ht
    rw [hf] at ht
    cases ht
  | some f =>
    rw [funcType?_of_function hf] at ht
    rw [funcType?_of_function (h.functions hf)]
    exact h.types ht

/-- Where no function is added, all signatures stay. -/
theorem Typed.funcType?_eq (hm : m.Typed) (h : m.Keeps m')
    (hlength : m'.functions.size = m.functions.size) (p : Nat) :
    m'.funcType? p = m.funcType? p := by
  rcases Nat.lt_or_ge p m.functions.size with hp | hp
  · obtain ⟨t, ht⟩ := hm.exists_funcType hp
    rw [ht, h.funcType? ht]
  · rw [funcType?_of_size_le hp, funcType?_of_size_le (hlength ▸ hp)]

end Module

namespace Builder

open WasmDebugger.Module

variable {b b' : Builder} {c : BuilderCall} {t : FuncType} {e : BuildError}

/-- All refusals come before the first change, but for the interned signature. -/
theorem after_of_error (h : b.reply c = .error e) :
    b.after c = match c.interned? with
      | none => b
      | some t => { b with module := (b.module.addType t).2 } := by
  cases c with
  | importFunction name t =>
    by_cases hsaw : b.sawDefined
    · exact congrArg (·.2) (importFunction_of_sawDefined hsaw name t)
    · have h : (b.importFunction name t).1.map BuilderAnswer.index = .error e := h
      rw [importFunction_of_not_sawDefined hsaw] at h
      cases h
  | addFunction t locals body =>
    cases hresolve : Nesting.resolve (body ++ [.blockEnd]) with
    | error _ => exact congrArg (·.2) (addFunction_of_error hresolve b t locals)
    | ok code =>
      have h : (b.addFunction t locals body).1.map BuilderAnswer.index = .error e := h
      rw [addFunction_of_ok hresolve] at h
      cases h
  | addGlobal u isMutable init =>
    by_cases htype : init.type = u
    · have h : (b.module.addGlobal u isMutable init).1.map BuilderAnswer.index = .error e := h
      rw [addGlobal_of_type htype] at h
      cases h
    · exact congrArg (fun r => { b with module := r.2 }) (addGlobal_of_ne htype b.module isMutable)
  | addMemory limits =>
    by_cases hnone : b.module.memories.isEmpty
    · have h : (b.module.addMemory limits).1.map BuilderAnswer.index = .error e := h
      rw [addMemory_of_empty hnone] at h
      cases h
    · exact congrArg (fun r => { b with module := r.2 }) (addMemory_of_not_empty hnone limits)
  | addType _ | addTable _ | addData _ _ | addElements _ _ | addExport _ | setStart _
  | addCustom _ | finish => cases h

/-- Interning changes nothing if and only if the signature is known. -/
theorem intern_eq_self_iff :
    { b with module := (b.module.addType t).2 } = b ↔ t ∈ b.module.types := by
  rw [← addType_eq_self_iff]
  exact ⟨congrArg Builder.module, congrArg (Builder.mk · b.sawDefined)⟩

/-! ## What is not about signatures -/

/-- The builder without the signatures of its module. -/
def untyped (b : Builder) : Builder := { b with module := b.module.untyped }

theorem module_untyped (b : Builder) : b.untyped.module = b.module.untyped := rfl

theorem size_functions_of_untyped (h : b'.untyped = b.untyped) :
    b'.module.functions.size = b.module.functions.size := by
  rw [← size_untyped, ← module_untyped, h, module_untyped, size_untyped]

/-- **What a call adds besides signatures depends on what is there besides signatures.** -/
theorem untyped_after (b : Builder) (c : BuilderCall) :
    (b.after c).untyped = (b.untyped.after c).untyped := by
  have same : ∀ {m n : Module}, m.untyped = n.untyped →
      (⟨m, b.sawDefined⟩ : Builder).untyped = (⟨n, b.sawDefined⟩ : Builder).untyped :=
    congrArg (Builder.mk · b.sawDefined)
  cases c with
  | addType t =>
    refine same (n := (b.module.untyped.addType t).2) ?_
    rw [untyped_addType, untyped_addType, untyped_untyped]
  | importFunction name t =>
    show (b.importFunction name t).2.untyped = (b.untyped.importFunction name t).2.untyped
    by_cases hsaw : b.sawDefined
    · rw [importFunction_of_sawDefined hsaw, importFunction_of_sawDefined (b := b.untyped) hsaw]
      exact same (untyped_untyped b.module).symm
    · rw [importFunction_of_not_sawDefined hsaw,
        importFunction_of_not_sawDefined (b := b.untyped) hsaw]
      refine same ?_
      rw [untyped_push, untyped_push, module_untyped, untyped_untyped]
      rfl
  | addFunction t locals body =>
    show (b.addFunction t locals body).2.untyped = (b.untyped.addFunction t locals body).2.untyped
    cases hresolve : Nesting.resolve (body ++ [.blockEnd]) with
    | error _ =>
      rw [addFunction_of_error hresolve, addFunction_of_error hresolve]
      refine same ?_
      rw [untyped_addType, untyped_addType, module_untyped, untyped_untyped]
    | ok code =>
      rw [addFunction_of_ok hresolve, addFunction_of_ok hresolve]
      refine congrArg (Builder.mk · true) ?_
      simp only
      rw [untyped_push, untyped_push, module_untyped, untyped_untyped]
      rfl
  | addGlobal u isMutable init =>
    refine same (n := (b.module.untyped.addGlobal u isMutable init).2) ?_
    by_cases htype : init.type = u
    · rw [addGlobal_of_type htype, addGlobal_of_type htype]
      simp only [Module.untyped, map_withType]
    · rw [addGlobal_of_ne htype, addGlobal_of_ne htype, untyped_untyped]
  | addMemory limits =>
    refine same (n := (b.module.untyped.addMemory limits).2) ?_
    by_cases hnone : b.module.memories.isEmpty
    · rw [addMemory_of_empty hnone, addMemory_of_empty (m := b.module.untyped) hnone]
      simp only [Module.untyped, map_withType]
    · rw [addMemory_of_not_empty hnone, addMemory_of_not_empty (m := b.module.untyped) hnone,
        untyped_untyped]
  | addTable _ | addData _ _ | addElements _ _ | addExport _ | setStart _ | addCustom _ | finish =>
    simp only [after, perform, finish, addTable, addData, addElements, addExport, setStart,
      addCustom, untyped, Module.untyped, map_withType]

/-- **So does its answer**, unless it asks for a signature or for the module. -/
theorem reply_untyped (hc : ∀ t, c ≠ .addType t) (hfinish : c ≠ .finish) :
    b.reply c = b.untyped.reply c := by
  cases c with
  | addType t => exact absurd rfl (hc t)
  | importFunction name t =>
    refine congrArg (Except.map BuilderAnswer.index) ?_
    by_cases hsaw : b.sawDefined
    · rw [importFunction_of_sawDefined hsaw, importFunction_of_sawDefined (b := b.untyped) hsaw]
    · rw [importFunction_of_not_sawDefined hsaw,
        importFunction_of_not_sawDefined (b := b.untyped) hsaw, module_untyped, size_untyped]
  | addFunction t locals body =>
    refine congrArg (Except.map BuilderAnswer.index) ?_
    cases hresolve : Nesting.resolve (body ++ [.blockEnd]) with
    | error _ => rw [addFunction_of_error hresolve, addFunction_of_error hresolve]
    | ok code =>
      rw [addFunction_of_ok hresolve, addFunction_of_ok hresolve, module_untyped, size_untyped]
  | addGlobal u isMutable init =>
    refine congrArg (Except.map BuilderAnswer.index) ?_
    by_cases htype : init.type = u
    · rw [addGlobal_of_type htype, addGlobal_of_type htype]
      rfl
    · rw [addGlobal_of_ne htype, addGlobal_of_ne htype]
  | addMemory limits =>
    refine congrArg (Except.map BuilderAnswer.index) ?_
    by_cases hnone : b.module.memories.isEmpty
    · rw [addMemory_of_empty hnone, addMemory_of_empty (m := b.untyped.module) hnone]
    · rw [addMemory_of_not_empty hnone, addMemory_of_not_empty (m := b.untyped.module) hnone]
  | finish => exact absurd rfl hfinish
  | addTable _ | addData _ _ | addElements _ _ | addExport _ | setStart _ | addCustom _ => rfl

theorem untyped_after_congr (h : b'.untyped = b.untyped) (c : BuilderCall) :
    (b'.after c).untyped = (b.after c).untyped := by
  rw [untyped_after b' c, untyped_after b c, h]

theorem untyped_foldl_congr (h : b'.untyped = b.untyped) (later : List BuilderCall) :
    (later.foldl after b').untyped = (later.foldl after b).untyped := by
  induction later generalizing b b' with
  | nil => exact h
  | cons c later ih => exact ih (untyped_after_congr h c)

/-- What is left when the module has been handed out does not depend on its signatures. -/
theorem after_finish_congr (h : b'.untyped = b.untyped) : b'.after .finish = b.after .finish := by
  obtain ⟨hmodule, hmark⟩ := Builder.mk.inj h
  have hstart : b'.module.start = b.module.start := (congrArg Module.start hmodule :)
  show (⟨{ start := b'.module.start }, b'.sawDefined⟩ : Builder) =
    ⟨{ start := b.module.start }, b.sawDefined⟩
  rw [hstart, hmark]

/-- **When the module has been handed out there is no difference any more.** -/
theorem foldl_eq_of_finish (h : b'.untyped = b.untyped) {later : List BuilderCall}
    (hl : .finish ∈ later) : later.foldl after b' = later.foldl after b := by
  obtain ⟨first, rest, rfl⟩ := List.append_of_mem hl
  rw [List.foldl_append, List.foldl_append, List.foldl_cons, List.foldl_cons,
    after_finish_congr (untyped_foldl_congr h first)]

/-! ## Signatures -/

/-- The signature that a call interns, refused or not. -/
def interns? (b : Builder) : BuilderCall → Option FuncType
  | .addType t => some t
  | .importFunction _ t => if b.sawDefined then none else some t
  | .addFunction t _ _ => some t
  | _ => none

theorem types_after (b : Builder) (hc : c ≠ .finish) :
    (b.after c).module.types = match b.interns? c with
      | none => b.module.types
      | some t => (b.module.addType t).2.types := by
  cases c with
  | addType t => rfl
  | importFunction name t =>
    have hinterns : b.interns? (.importFunction name t) =
        if b.sawDefined then none else some t := rfl
    show (b.importFunction name t).2.module.types = _
    rw [hinterns]
    by_cases hsaw : b.sawDefined
    · rw [importFunction_of_sawDefined hsaw, if_pos hsaw]
    · rw [importFunction_of_not_sawDefined hsaw, if_neg hsaw]
  | addFunction t locals body =>
    show (b.addFunction t locals body).2.module.types = _
    cases hresolve : Nesting.resolve (body ++ [.blockEnd]) with
    | error _ =>
      rw [addFunction_of_error hresolve]
      rfl
    | ok code =>
      rw [addFunction_of_ok hresolve]
      rfl
  | addGlobal u isMutable init =>
    show (b.module.addGlobal u isMutable init).2.types = b.module.types
    by_cases htype : init.type = u
    · rw [addGlobal_of_type htype]
    · rw [addGlobal_of_ne htype]
  | addMemory limits =>
    show (b.module.addMemory limits).2.types = b.module.types
    by_cases hnone : b.module.memories.isEmpty
    · rw [addMemory_of_empty hnone]
    · rw [addMemory_of_not_empty hnone]
  | finish => exact absurd rfl hc
  | addTable _ | addData _ _ | addElements _ _ | addExport _ | setStart _ | addCustom _ => rfl

theorem interns?_congr (h : b'.untyped = b.untyped) (c : BuilderCall) :
    b'.interns? c = b.interns? c := by
  have hmark : b'.sawDefined = b.sawDefined := (Builder.mk.inj h).2
  cases c with
  | importFunction name t =>
    unfold interns?
    rw [hmark]
  | _ => rfl

theorem mem_types_after {u : FuncType} (hc : c ≠ .finish) :
    u ∈ (b.after c).module.types ↔ u ∈ b.module.types ∨ b.interns? c = some u := by
  rw [types_after b hc]
  cases b.interns? c with
  | none => simp
  | some t => simp [mem_types_addType, eq_comm]

/-- **The second builder has the signature `t` besides those of the first one.** In what is not
about signatures they are the same. -/
structure Besides (t : FuncType) (b b' : Builder) : Prop where
  rest : b'.untyped = b.untyped
  types : ∀ u, u ∈ b'.module.types ↔ u ∈ b.module.types ∨ u = t

theorem besides_addType (b : Builder) (t : FuncType) :
    Besides t b { b with module := (b.module.addType t).2 } :=
  ⟨congrArg (Builder.mk · b.sawDefined) (untyped_addType b.module t), fun _ => mem_types_addType⟩

theorem reply_congr (h : b'.untyped = b.untyped) (hc : ∀ u, c ≠ .addType u)
    (hfinish : c ≠ .finish) : b'.reply c = b.reply c := by
  rw [reply_untyped hc hfinish, h, ← reply_untyped hc hfinish]

theorem Besides.after (h : Besides t b b') (hc : c ≠ .finish) :
    Besides t (b.after c) (b'.after c) := by
  refine ⟨untyped_after_congr h.rest c, fun u => ?_⟩
  rw [mem_types_after hc, mem_types_after hc, h.types, interns?_congr h.rest, or_right_comm]

theorem Besides.foldl (h : Besides t b b') {later : List BuilderCall} (hl : .finish ∉ later) :
    Besides t (later.foldl Builder.after b) (later.foldl Builder.after b') := by
  induction later generalizing b b' with
  | nil => exact h
  | cons c later ih =>
    rw [List.mem_cons, not_or] at hl
    exact ih (h.after (Ne.symm hl.1)) hl.2

/-! ## The signatures of functions -/

/-- The signature of the function that a call adds, if it adds one. -/
def added? (b : Builder) (c : BuilderCall) : Option FuncType :=
  match b.reply c with
  | .error _ => none
  | .ok _ => c.signature?

/-- The functions keep their signatures, and one that is added has the signature that was given. -/
theorem funcType?_after (hm : b.module.Typed) (hc : c ≠ .finish)
    (hsize : (b.after c).module.types.size ≤ UInt32.size) (p : Nat) :
    (b.after c).module.funcType? p =
      if p < b.module.functions.size then b.module.funcType? p
      else if p = b.module.functions.size then b.added? c else none := by
  split
  · rename_i hp
    obtain ⟨t, ht⟩ := hm.exists_funcType hp
    rw [ht, (keeps_after b hc).funcType? ht]
  · rename_i hp
    cases b.adds_after c with
    | nothing hrefused _ hfunctions _ | type _ hrefused _ hfunctions _ =>
      have hnone : b.added? c = none := by
        unfold added?
        rcases hrefused with hnone | ⟨e, he⟩
        · rw [hnone]
          split <;> rfl
        · rw [he]
      rw [funcType?_of_size_le (by rw [hfunctions]; omega), hnone, ite_self]
    | function t f ht _ htype hreply htypes hfunctions _ _ =>
      split
      · rename_i hlast
        obtain ⟨q, hq, hat⟩ := exists_type b.module t
        rw [← htypes] at hat
        have hf : (b.after c).module.functions[p]? = some f := by
          rw [hfunctions, hlast]
          exact Array.getElem?_push_size
        rw [funcType?_of_function hf, htype, hq, toNat_position hat hsize, hat]
        unfold added?
        rw [hreply, ht]
      · refine funcType?_of_size_le ?_
        rw [hfunctions, Array.size_push]
        omega
    | finish hfinish _ _ _ => exact absurd hfinish hc

theorem typed_after (hm : b.module.Typed) (hc : c ≠ .finish) : (b.after c).module.Typed := by
  have hsize := (keeps_after b hc).types_size_le
  intro f hf
  cases b.adds_after c with
  | nothing _ _ hfunctions _ | type _ _ _ hfunctions _ =>
    exact Nat.lt_of_lt_of_le (hm f (hfunctions ▸ hf)) hsize
  | function t g _ _ htype _ htypes hfunctions _ _ =>
    rw [hfunctions, Array.mem_push] at hf
    rcases hf with hf | rfl
    · exact Nat.lt_of_lt_of_le (hm f hf) hsize
    · obtain ⟨q, hq, hat⟩ := exists_type b.module t
      rw [← htypes] at hat
      rw [htype, hq]
      -- a number that has wrapped around is smaller still
      exact Nat.lt_of_le_of_lt (Nat.mod_le q _) (Array.getElem?_eq_some_iff.mp hat).1
  | finish hfinish _ _ _ => exact absurd hfinish hc

theorem added?_congr (h : b'.untyped = b.untyped) (hfinish : c ≠ .finish) :
    b'.added? c = b.added? c := by
  unfold added?
  by_cases hc : ∀ t, c ≠ .addType t
  · rw [reply_congr h hc hfinish]
  · obtain ⟨t, hc⟩ := not_forall.mp hc
    rw [not_not.mp hc]
    rfl

/-- **The functions have the same signatures**, whatever numbers these have. -/
theorem funcType?_foldl (hrest : b'.untyped = b.untyped) (hm : b.module.Typed)
    (hm' : b'.module.Typed) (hsame : ∀ p, b'.module.funcType? p = b.module.funcType? p)
    {later : List BuilderCall} (hl : .finish ∉ later)
    (hsize : (later.foldl after b).module.types.size ≤ UInt32.size)
    (hsize' : (later.foldl after b').module.types.size ≤ UInt32.size) (p : Nat) :
    (later.foldl after b').module.funcType? p = (later.foldl after b).module.funcType? p := by
  induction later generalizing b b' with
  | nil => exact hsame p
  | cons c later ih =>
    rw [List.mem_cons, not_or] at hl
    obtain ⟨hne, hlater⟩ := hl
    have hc : c ≠ .finish := Ne.symm hne
    have hone := Nat.le_trans (keeps_foldl (b.after c) hlater).types_size_le hsize
    have hone' := Nat.le_trans (keeps_foldl (b'.after c) hlater).types_size_le hsize'
    refine ih (untyped_after_congr hrest c) (typed_after hm hc) (typed_after hm' hc)
      (fun p => ?_) hlater hsize hsize'
    rw [funcType?_after hm hc hone, funcType?_after hm' hc hone', size_functions_of_untyped hrest,
      hsame, added?_congr hrest hc]

/-! ## All later calls -/

/-- **A refused call leaves the builder as it was if and only if it brings no new signature with a
malformed body.** If it does, then that signature is all that stays.

* In what is not about signatures the builder and what later calls make of it are as if the call had
  not been made, and so are the answers of the later calls that ask for something else than the
  number of a signature or the module.
* The signatures of the module are those that there would have been and the one that has stayed. Its
  numbers may differ, but every function has the signature that it would have had, as long as the
  numbers suffice. That is also so for the module that is handed out.
* When it has been handed out, the builder is as if the call had not been made. -/
theorem refused_unchanged_iff (h : b.reply c = .error e) :
    (b.after c = b ↔ ∀ t, c.interned? = some t → t ∈ b.module.types) ∧
    ∀ t, c.interned? = some t → t ∉ b.module.types →
      b.after c = { b with module := { b.module with types := b.module.types.push t } } ∧
      ∀ later : List BuilderCall,
        (later.foldl after (b.after c)).untyped = (later.foldl after b).untyped ∧
        (.finish ∉ later → ∀ u, u ∈ (later.foldl after (b.after c)).module.types ↔
          u ∈ (later.foldl after b).module.types ∨ u = t) ∧
        (.finish ∈ later → later.foldl after (b.after c) = later.foldl after b) ∧
        (∀ d : BuilderCall, (∀ u, d ≠ .addType u) → d ≠ .finish →
          (later.foldl after (b.after c)).reply d = (later.foldl after b).reply d) ∧
        (b.module.Typed → (later.foldl after b).module.types.size ≤ UInt32.size →
          (later.foldl after (b.after c)).module.types.size ≤ UInt32.size →
          ∀ p, (later.foldl after (b.after c)).module.funcType? p =
            (later.foldl after b).module.funcType? p) := by
  have hafter := after_of_error h
  have hc : c ≠ .finish := by
    rintro rfl
    cases h
  refine ⟨?_, fun t ht hnew => ?_⟩
  · rw [hafter]
    cases c.interned? with
    | none => simp
    | some t => simp [intern_eq_self_iff]
  · rw [ht] at hafter
    simp only at hafter
    have hbesides : Besides t b (b.after c) := hafter ▸ besides_addType b t
    refine ⟨?_, fun later => ⟨untyped_foldl_congr hbesides.rest later,
      fun hl => (hbesides.foldl hl).types, fun hl => foldl_eq_of_finish hbesides.rest hl,
      fun d hd hfinish => reply_congr (untyped_foldl_congr hbesides.rest later) hd hfinish,
      fun hm hsize hsize' => ?_⟩⟩
    · rcases addType_cases b.module t with ⟨q, hq, -⟩ | ⟨-, he⟩
      · exact absurd (Array.mem_of_getElem? hq) hnew
      · rw [hafter, he]
    · by_cases hl : .finish ∈ later
      · rw [foldl_eq_of_finish hbesides.rest hl]
        exact fun p => rfl
      · have hlength := size_functions_of_untyped hbesides.rest
        exact funcType?_foldl hbesides.rest hm (typed_after hm hc)
          (hm.funcType?_eq (keeps_after b hc) hlength) hl hsize hsize'

/-- A function whose block has no `end`. -/
def unterminated : BuilderCall := .addFunction ⟨[.i32], []⟩ [] [.block none none]

theorem reply_unterminated (b : Builder) :
    b.reply unterminated = .error (.malformedBody (.unterminated 0)) := by
  have hresolve : Nesting.resolve ([.block none none] ++ [.blockEnd]) =
      .error (.unterminated 0) := rfl
  exact congrArg (·.1.map BuilderAnswer.index) (addFunction_of_error hresolve b ⟨[.i32], []⟩ [])

/-- A builder with an import. -/
def ticking : Builder where
  module := { types := #[⟨[], []⟩], functions := #[.imported 0 ⟨"env", "tick"⟩] }

/-- A function of the import's signature is added behind the refused one. -/
theorem refused_unchanged_iff_between :
    ticking.reply unterminated = .error (.malformedBody (.unterminated 0)) ∧
      unterminated.interned? = some ⟨[.i32], []⟩ ∧ ⟨[.i32], []⟩ ∉ ticking.module.types ∧
      ticking.module.Typed ∧ ([idle].foldl after ticking).module.types.size = 1 ∧
      ([idle].foldl after (ticking.after unterminated)).module.types.size = 2 ∧
      ([idle].foldl after (ticking.after unterminated)).module.funcType? 1 =
        ([idle].foldl after ticking).module.funcType? 1 := by
  have hrefused := reply_unterminated ticking
  have hnew : ⟨[.i32], []⟩ ∉ ticking.module.types := by simp [ticking]
  have htyped : ticking.module.Typed := by
    intro f hf
    obtain rfl : f = .imported 0 ⟨"env", "tick"⟩ := by simpa [ticking] using hf
    decide
  obtain ⟨-, hleft⟩ := refused_unchanged_iff hrefused
  obtain ⟨hafter, hlater⟩ := hleft _ rfl hnew
  have hsize : ([idle].foldl after ticking).module.types.size = 1 := by
    have hknown : (⟨[], []⟩ : FuncType) ∈ ticking.module.types := by simp [ticking]
    have htypes : (ticking.after idle).module.types = (ticking.module.addType ⟨[], []⟩).2.types :=
      types_after ticking (c := idle) nofun
    show (ticking.after idle).module.types.size = 1
    rw [htypes, addType_eq_self_iff.mpr hknown]
    rfl
  have hsize' : ([idle].foldl after (ticking.after unterminated)).module.types.size = 2 := by
    have hbuilt : ticking.after unterminated = built refusedFirst := by
      rw [hafter, built_refusedFirst]
      rfl
    rw [hbuilt]
    exact congrArg (·.2.module.types.size) addFunction_idle
  obtain ⟨-, -, -, -, hsignatures⟩ := hlater [idle]
  exact ⟨hrefused, rfl, hnew, htyped, hsize, hsize',
    hsignatures htyped (by rw [hsize]; decide) (by rw [hsize']; decide) 1⟩

/-- **A refused call that is noticed later**: the signature of a function that has been refused for
its body stays in the empty module, and the next signature gets another number. -/
theorem refused_body_leaves_signature :
    ({} : Builder).reply unterminated = .error (.malformedBody (.unterminated 0)) ∧
      ({} : Builder).after unterminated ≠ {} ∧
      ({} : Builder).reply (.addType ⟨[], []⟩) = .ok (.index 0) ∧
      (({} : Builder).after unterminated).reply (.addType ⟨[], []⟩) = .ok (.index 1) := by
  have hafter : ({} : Builder).after unterminated = ⟨{ types := #[⟨[.i32], []⟩] }, false⟩ := by
    refine (after_of_error (reply_unterminated {})).trans ?_
    show (⟨(({} : Module).addType ⟨[.i32], []⟩).2, false⟩ : Builder) = _
    unfold addType
    simp only [Array.findIdx?_empty]
    rfl
  refine ⟨reply_unterminated {}, ?_, ?_, ?_⟩
  · rw [hafter]
    intro h
    exact absurd (congrArg (·.module.types.size) h) (by decide)
  · show Except.ok (BuilderAnswer.index (({} : Module).addType ⟨[], []⟩).1) = _
    unfold addType
    simp only [Array.findIdx?_empty]
    rfl
  · rw [hafter]
    show Except.ok (BuilderAnswer.index
      (Module.addType { types := #[⟨[.i32], []⟩] } ⟨[], []⟩).1) = _
    unfold addType
    simp only [List.findIdx?_toArray]
    rfl

end Builder

end WasmDebugger
