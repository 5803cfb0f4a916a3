import WasmDebugger.Module.Build
import WasmDebugger.Proofs.WellFormed

/-!
# Where resolved bodies come from

A machine follows the targets in a body without looking at the nesting. So every way to make a
module has to resolve its bodies.

* **`bodiesResolved_of_ofBytes?`**: a module that was read has only resolved bodies.
* `BuilderCall.Requests`: the function that a call asks for.
* `Builder.Adds`: what a call does to the types, the functions and the mark of a builder, refused or
  not (`adds_after`).
* **`Module.Assembled.bodiesResolved`**: a module put together part by part has resolved bodies, as
  long as none is given that names an arm beforehand and nobody edits them.
-/

namespace WasmDebugger

open Nesting (Resolved resolved_of_resolve)

/-- The function has no body, or a resolved one. -/
def Function.BodyResolved (f : Function) : Prop := ∀ code, f.code? = some code → Resolved code

/-- All bodies are resolved. -/
def Module.BodiesResolved (m : Module) : Prop := ∀ f code, m.code? f = some code → Resolved code

theorem bodiesResolved_of_functions {m : Module} (h : ∀ f ∈ m.functions, f.BodyResolved) :
    m.BodiesResolved := by
  intro f code hc
  obtain ⟨function, hf, hcode⟩ := Option.bind_eq_some_iff.mp hc
  exact h function (Array.mem_of_getElem? hf) code hcode

theorem Module.WellFormed.bodiesResolved {m : Module} (h : m.WellFormed) : m.BodiesResolved := by
  refine bodiesResolved_of_functions fun f hf code hc => ?_
  cases f with
  | imported _ _ => exact absurd hc (by simp [Function.code?])
  | defined type locals code' =>
    cases hc
    exact ((h.functions _ hf).2 _ _ _ rfl).resolved

/-- **A module that was read has only resolved bodies.** -/
theorem bodiesResolved_of_ofBytes? {input : List UInt8} {m : Module}
    (h : Module.ofBytes? input = .ok m) : m.BodiesResolved :=
  (Decoder.yields_module.run? h).bodiesResolved

/-! ## One call of a builder -/

theorem Module.functions_addType (m : Module) (t : FuncType) :
    (m.addType t).2.functions = m.functions := by
  unfold addType
  split <;> rfl

namespace BuilderCall

/-- The signature of the function that a call asks for. -/
def signature? : BuilderCall → Option FuncType
  | .importFunction _ t => some t
  | .addFunction t _ _ => some t
  | _ => none

/-- A body that is given names no arm. -/
def Unarmed : BuilderCall → Prop
  | .addFunction _ _ body => Nesting.Unarmed body
  | _ => True

/-- **The function is the one that the call asks for**: it has the name of the import, or the locals
and, apart from their targets, the instructions, with the `end` that closes the body behind them.
They are well bracketed, none of them lacks its `end`, and where no arm was given their targets are
the right ones. -/
inductive Requests : BuilderCall → Function → Prop where
  | imported {name : ImportName} {t : FuncType} {type : UInt32} :
      Requests (.importFunction name t) (.imported type name)
  | defined {t : FuncType} {locals : List ValueType} {body : List Instr} {type : UInt32}
      {code : Array Instr}
      (hcode : code.toList.map Instr.bare = (body ++ [Instr.blockEnd]).map Instr.bare)
      (hbracketed : Nesting.WellBracketed code.toList)
      (hends : Nesting.EndsNamed code.toList)
      (hresolved : Nesting.Unarmed body → Resolved code) :
      Requests (.addFunction t locals body) (.defined type locals code)

theorem Requests.bodyResolved {c : BuilderCall} {f : Function} (h : c.Requests f)
    (hc : c.Unarmed) : f.BodyResolved := by
  intro code hcode
  cases h with
  | imported => cases hcode
  | defined _ _ _ hresolved =>
    cases hcode
    exact hresolved hc

theorem requests_of_resolve {body code : List Instr}
    (h : Nesting.resolve (body ++ [.blockEnd]) = .ok code) (t : FuncType)
    (locals : List ValueType) (type : UInt32) :
    (addFunction t locals body).Requests (.defined type locals code.toArray) := by
  have hbare := Nesting.map_bare_of_resolve h
  refine .defined hbare ((Nesting.wellBracketed_of_resolve h).of_bare hbare)
    (Nesting.endsNamed_of_resolve h) fun hu => ?_
  refine resolved_of_resolve h fun r e arm hmem => ?_
  exact hu r e arm (by simpa using hmem)

end BuilderCall

namespace Builder

variable {b b' : Builder} {c : BuilderCall}

/-- An import is refused as soon as a function has been defined. -/
theorem importFunction_of_sawDefined (h : b.sawDefined) (name : ImportName) (t : FuncType) :
    b.importFunction name t = (.error .importAfterDefinition, b) :=
  if_pos h

theorem importFunction_of_not_sawDefined (h : ¬b.sawDefined) (name : ImportName) (t : FuncType) :
    b.importFunction name t = (.ok b.module.functions.size.toUInt32,
      { b with module := { (b.module.addType t).2 with
          functions := b.module.functions.push (.imported (b.module.addType t).1 name) } }) := by
  rw [← Module.functions_addType b.module t]
  exact if_neg h

/-- A malformed body is refused when its signature has been interned. -/
theorem addFunction_of_error {body : List Instr} {e : NestingError}
    (h : Nesting.resolve (body ++ [.blockEnd]) = .error e) (b : Builder) (t : FuncType)
    (locals : List ValueType) :
    b.addFunction t locals body =
      (.error (.malformedBody e), { b with module := (b.module.addType t).2 }) := by
  unfold addFunction
  simp only [h]

theorem addFunction_of_ok {body code : List Instr}
    (h : Nesting.resolve (body ++ [.blockEnd]) = .ok code) (b : Builder) (t : FuncType)
    (locals : List ValueType) :
    b.addFunction t locals body = (.ok b.module.functions.size.toUInt32,
      { module := { (b.module.addType t).2 with
          functions :=
            b.module.functions.push (.defined (b.module.addType t).1 locals code.toArray) }
        sawDefined := true }) := by
  unfold addFunction
  rw [← Module.functions_addType b.module t]
  simp only [h]
  rfl

/-- **What a call does** to the types and the functions of a module and to the mark of its builder.
A function is answered with its position; where none is added, a call that asks for one is
refused. -/
inductive Adds (b : Builder) (c : BuilderCall) (b' : Builder) : Prop where
  | nothing (hrefused : c.signature? = none ∨ ∃ e, b.reply c = .error e)
      (htypes : b'.module.types = b.module.types)
      (hfunctions : b'.module.functions = b.module.functions)
      (hmark : b'.sawDefined = b.sawDefined)
  | type (t : FuncType) (hrefused : c.signature? = none ∨ ∃ e, b.reply c = .error e)
      (htypes : b'.module.types = (b.module.addType t).2.types)
      (hfunctions : b'.module.functions = b.module.functions)
      (hmark : b'.sawDefined = b.sawDefined)
  | function (t : FuncType) (f : Function) (ht : c.signature? = some t) (hf : c.Requests f)
      (htype : f.type = (b.module.addType t).1)
      (hreply : b.reply c = .ok (.index b.module.functions.size.toUInt32))
      (htypes : b'.module.types = (b.module.addType t).2.types)
      (hfunctions : b'.module.functions = b.module.functions.push f)
      (horder : f.isImported = true → b.sawDefined = false)
      (hmark : b'.sawDefined = !f.isImported)
  | finish (hc : c = .finish) (htypes : b'.module.types = #[])
      (hfunctions : b'.module.functions = #[]) (hmark : b'.sawDefined = b.sawDefined)

theorem adds_importFunction (b : Builder) (name : ImportName) (t : FuncType) :
    b.Adds (.importFunction name t) (b.importFunction name t).2 := by
  by_cases hsaw : b.sawDefined
  · have h := importFunction_of_sawDefined hsaw name t
    have hreply : b.reply (.importFunction name t) = .error .importAfterDefinition :=
      congrArg (·.1.map BuilderAnswer.index) h
    exact .nothing (Or.inr ⟨_, hreply⟩) (by rw [h]) (by rw [h]) (by rw [h])
  · have h := importFunction_of_not_sawDefined hsaw name t
    have hmark : b.sawDefined = false := eq_false_of_ne_true hsaw
    exact .function t (.imported (b.module.addType t).1 name) rfl .imported rfl
      (congrArg (·.1.map BuilderAnswer.index) h) (by rw [h]) (by rw [h]) (fun _ => hmark)
      (by rw [h]; exact hmark)

theorem adds_addFunction (b : Builder) (t : FuncType) (locals : List ValueType)
    (body : List Instr) :
    b.Adds (.addFunction t locals body) (b.addFunction t locals body).2 := by
  cases hresolve : Nesting.resolve (body ++ [.blockEnd]) with
  | error e =>
    have h := addFunction_of_error hresolve b t locals
    have hreply : b.reply (.addFunction t locals body) = .error (.malformedBody e) :=
      congrArg (·.1.map BuilderAnswer.index) h
    exact .type t (Or.inr ⟨_, hreply⟩) (by rw [h]) (by rw [h, Module.functions_addType])
      (by rw [h])
  | ok code =>
    have h := addFunction_of_ok hresolve b t locals
    exact .function t (.defined (b.module.addType t).1 locals code.toArray) rfl
      (BuilderCall.requests_of_resolve hresolve t locals _) rfl
      (congrArg (·.1.map BuilderAnswer.index) h) (by rw [h]) (by rw [h]) nofun (by rw [h]; rfl)

theorem adds_after (b : Builder) (c : BuilderCall) : b.Adds c (b.after c) := by
  cases c with
  | addType t => exact .type t (Or.inl rfl) rfl (b.module.functions_addType t) rfl
  | importFunction name t => exact adds_importFunction b name t
  | addFunction t locals body => exact adds_addFunction b t locals body
  | addGlobal t isMutable init =>
    refine .nothing (Or.inl rfl) ?_ ?_ rfl <;> simp only [after, perform, Module.addGlobal] <;>
      split <;> rfl
  | addMemory limits =>
    refine .nothing (Or.inl rfl) ?_ ?_ rfl <;> simp only [after, perform, Module.addMemory] <;>
      split <;> rfl
  | addTable _ | addData _ _ | addElements _ _ | addExport _ | setStart _ | addCustom _ =>
    exact .nothing (Or.inl rfl) rfl rfl rfl
  | finish => exact .finish rfl rfl rfl rfl

/-! ## Modules put together part by part -/

/-- Made from a fresh builder by calls. In between anything may be edited but the bodies. -/
inductive Assembled : Builder → Prop where
  | fresh : Assembled {}
  | call {b : Builder} (h : Assembled b) (c : BuilderCall) (hc : c.Unarmed) : Assembled (b.after c)
  | edited {b : Builder} {m : Module} (h : Assembled b) (hm : ∀ f, m.code? f = b.module.code? f) :
      Assembled { b with module := m }

end Builder

namespace Module

variable {m m' : Module}

/-- The module is in the hands of such a builder, or was when the builder finished. -/
def Assembled (m : Module) : Prop := ∃ b : Builder, b.Assembled ∧ b.module = m

theorem BodiesResolved.of_functions (h : m.BodiesResolved) (he : m'.functions = m.functions) :
    m'.BodiesResolved := by
  intro f code hc
  unfold code? at hc
  rw [he] at hc
  exact h f code hc

theorem BodiesResolved.push {function : Function} (h : m.BodiesResolved)
    (hf : function.BodyResolved) (he : m'.functions = m.functions.push function) :
    m'.BodiesResolved := by
  intro f code hc
  unfold code? at hc
  rw [he, Array.getElem?_push] at hc
  split at hc
  · exact hf code hc
  · exact h f code hc

theorem bodiesResolved_of_empty (h : m.functions = #[]) : m.BodiesResolved := by
  intro f code hc
  unfold code? at hc
  rw [h] at hc
  cases hc

theorem bodiesResolved_after {b : Builder} {c : BuilderCall} (h : b.module.BodiesResolved)
    (hc : c.Unarmed) : (b.after c).module.BodiesResolved := by
  cases b.adds_after c with
  | nothing _ _ hfunctions _ | type _ _ _ hfunctions _ => exact h.of_functions hfunctions
  | function _ _ _ hf _ _ _ hfunctions _ _ => exact h.push (hf.bodyResolved hc) hfunctions
  | finish _ _ hfunctions _ => exact bodiesResolved_of_empty hfunctions

/-- **A module put together part by part has only resolved bodies.** -/
theorem Assembled.bodiesResolved (h : m.Assembled) : m.BodiesResolved := by
  obtain ⟨b, hb, rfl⟩ := h
  induction hb with
  | fresh => exact bodiesResolved_of_empty rfl
  | call _ c hc ih => exact bodiesResolved_after ih hc
  | edited _ hm ih => exact fun f code hcode => ih f code (hm f ▸ hcode)

end Module

end WasmDebugger
