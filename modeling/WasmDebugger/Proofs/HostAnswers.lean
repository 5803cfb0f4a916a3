import WasmDebugger.Proofs.FinishedCalls
import WasmDebugger.Proofs.Stores
import WasmDebugger.Proofs.Watchpoints

/-!
# Answers of the host

An instruction that calls an imported function, by its index or through the table, puts one request
to the host. What its result comes to is the same either way.

* `LinearMemory.Overwritten`: a memory and an image that has been copied over its front.
* `CallsImport`: the instruction at the position calls an imported function, and the operands suit
  the signature.
* `Suits`, `Room`: results that can be taken over, and a stack that takes the returned value.
* `Committed`: the machine after a result has been taken over.
* `refusal?_eq_none_iff`: results that suit are the ones that are not refused.
* `commit_of_room`, `commit_of_full`: taking over a result, with and without room.
* `execute_of_call`: both instructions come to what calling the function comes to.
* **`import_call_commits`**: a result is taken over as a whole or not at all.
-/

namespace WasmDebugger

/-! ## Memory images -/

namespace LinearMemory

variable {memory : LinearMemory} {image : ByteArray}

/-- Up to `n`, the bytes of the image; from there on, those of the memory. -/
theorem data_overwriteFront {n : Nat} (hn : n = min image.size memory.size) :
    (memory.overwriteFront image).bytes.data =
      image.data.extract 0 n ++ memory.bytes.data.extract n memory.size := by
  have hdata : (memory.overwriteFront image).bytes.data =
      memory.bytes.data.extract 0 0 ++
        image.data.extract 0 (0 + min image.size memory.size) ++
        memory.bytes.data.extract (0 + min (min image.size memory.size) (image.size - 0))
          memory.size := rfl
  have hle : n ≤ image.size := hn ▸ Nat.min_le_left _ _
  rw [hdata, ← hn, Nat.sub_zero, Nat.min_eq_left hle, Nat.zero_add, Array.extract_zero,
    Array.empty_append]

@[simp] theorem size_overwriteFront : (memory.overwriteFront image).size = memory.size := by
  have himage : image.size = image.data.size := rfl
  have hmemory : memory.size = memory.bytes.data.size := rfl
  show (memory.overwriteFront image).bytes.data.size = memory.size
  rw [data_overwriteFront rfl, Array.size_append, Array.size_extract, Array.size_extract]
  omega

/-- A byte below both lengths is that of the image. -/
theorem byte?_overwriteFront_of_lt {k : Nat} (himage : k < image.size) (hmemory : k < memory.size) :
    (memory.overwriteFront image).byte? k = image.data[k]? := by
  have hsize : image.size = image.data.size := rfl
  have hn : k < min image.size memory.size := Nat.lt_min.mpr ⟨himage, hmemory⟩
  unfold byte?
  rw [data_overwriteFront rfl, Array.getElem?_append_left (by rw [Array.size_extract]; omega),
    Array.getElem?_extract, if_pos (by omega), Nat.zero_add]

/-- A byte above the image stays. -/
theorem byte?_overwriteFront_of_le {k : Nat} (h : image.size ≤ k) :
    (memory.overwriteFront image).byte? k = memory.byte? k := by
  have hsize : image.size = image.data.size := rfl
  have hmemory : memory.size = memory.bytes.data.size := rfl
  unfold byte?
  rw [data_overwriteFront rfl, Array.getElem?_append_right (by rw [Array.size_extract]; omega),
    Array.size_extract, Array.getElem?_extract]
  by_cases hk : k < memory.size
  · rw [if_pos (by omega)]
    congr 1
    omega
  · rw [if_neg (by omega), Array.getElem?_eq_none (by omega)]

/-- **An image has been copied over the front of a memory**: up to the shorter length the bytes are
the image's, and above they are the old ones. -/
structure Overwritten (memory : LinearMemory) (image : ByteArray) (memory' : LinearMemory) :
    Prop where
  size : memory'.size = memory.size
  pages : memory'.pages = memory.pages
  bound : memory'.bound = memory.bound
  front : ∀ k, k < image.size → k < memory.size → memory'.byte? k = image.data[k]?
  back : ∀ k, image.size ≤ k → memory'.byte? k = memory.byte? k

theorem overwritten_overwriteFront (memory : LinearMemory) (image : ByteArray) :
    memory.Overwritten image (memory.overwriteFront image) where
  size := size_overwriteFront
  pages := rfl
  bound := rfl
  front := fun _ => byte?_overwriteFront_of_lt
  back := fun _ => byte?_overwriteFront_of_le

end LinearMemory

namespace Machine

/-! ## Results -/

section Results

variable {type : FuncType} {globals : Array Value} {r : ImportResult}

/-- What suits the signature and the globals is not refused. -/
theorem refusal?_of_types (hreturned : r.returned.toList.map Value.type = type.results)
    (hglobals : r.globals.map Value.type = globals.map Value.type) :
    refusal? type globals r = none := by
  have hnone : refusal?.globalRefusal? globals r = none := by
    have hlist : r.globals.toList.map Value.type = globals.toList.map Value.type := by
      rw [← Array.toList_map, ← Array.toList_map, hglobals]
    have hsize : r.globals.size = globals.size := by
      simpa using congrArg Array.size hglobals
    unfold refusal?.globalRefusal?
    rw [if_neg (by simp [hsize]), hlist, Option.map_eq_none_iff, List.findIdx?_eq_none_iff]
    intro pair hpair
    obtain ⟨k, hk, rfl⟩ := List.mem_iff_getElem.mp hpair
    simp
  unfold refusal?
  cases hr : r.returned with
  | none =>
    rw [hr] at hreturned
    simp [← hreturned, hnone]
  | some v =>
    rw [hr] at hreturned
    simp [← hreturned, hnone]

theorem refusal?_eq_none_iff : refusal? type globals r = none ↔
    r.returned.toList.map Value.type = type.results ∧
      r.globals.map Value.type = globals.map Value.type :=
  ⟨fun h => ⟨returned_of_refusal? h, types_of_refusal? h⟩, fun h => refusal?_of_types h.1 h.2⟩

end Results

/-! ## Calls of imported functions -/

variable {setup : Setup} {m : Machine} {f : Nat} {t : UInt32} {name : ImportName}
  {type : FuncType} {args rest : List Value} {i : Instr} {r : ImportResult}
  {call : ImportCall}

/-- The bytes of the first memory, which the host is shown. -/
def image (m : Machine) : ByteArray := (m.memory?.map (·.bytes)).getD .empty

/-- **The instruction at the position calls the imported function `f`**, by its index or through
the table, and arguments of the parameters' types lie on the stack, the last one uppermost. Below
them is `rest`. -/
structure CallsImport (setup : Setup) (m : Machine) (f : Nat) (name : ImportName) (type : FuncType)
    (args rest : List Value) (i : Instr) : Prop where
  active : m.frames ≠ []
  instr : fetch? setup m.ip = some i
  callee : m.callee? i = some f
  /-- A call through the table names the signature of the function. -/
  signature : ∀ t, i = .callIndirect t → setup.module.types[t.toNat]? = some type
  imported : ∃ t, setup.module.functions[f]? = some (.imported t name)
  funcType : setup.module.funcType? f = some type
  operands : (m.decided i).values = args.reverse ++ rest
  types : args.map Value.type = type.params
  available : i.deciding + args.length ≤ m.stack.available

/-- **A result that can be taken over**: a value of the declared type if there is one result, none
if there is none, and never more than one; and as many globals as the module has, each of its
type. -/
structure Suits (module : Module) (type : FuncType) (r : ImportResult) : Prop where
  returned : r.returned.toList.map Value.type = type.results
  globals : r.globals.map Value.type = module.globals.map Global.type

/-- The stack takes the returned value, if there is one, on top of `rest`. -/
def Room (limits : Limitation) (rest : List Value) (r : ImportResult) : Prop :=
  r.returned ≠ none → rest.length < limits.maxValueStack

/-- **A result has been taken over**: in the place of the consumed operands is the returned value,
the globals are the returned ones, and the returned image covers the front of the first memory.
Nothing else has changed. -/
structure Committed (m : Machine) (rest : List Value) (r : ImportResult) (m' : Machine) : Prop where
  ip : m'.ip = ⟨m.ip.function, m.ip.instr + 1⟩
  operands : m'.stack.values = r.returned.toList ++ rest
  floor : m'.stack.floor = m.stack.floor
  limit : m'.stack.limit = m.stack.limit
  frames : m'.frames = m.frames
  tables : m'.tables = m.tables
  globals : m'.globals = r.globals
  memories : m'.memories.size = m.memories.size
  memory : ∀ memory, m.memory? = some memory →
    ∃ memory', m'.memory? = some memory' ∧ memory.Overwritten r.memory memory'
  otherMemories : ∀ k, 0 < k → m'.memories[k]? = m.memories[k]?

/-! ## What is asked -/

/-- Arguments of the parameters' types are what the host is asked with. -/
theorem importCall?_of_typed (hf : setup.module.functions[f]? = some (.imported t name))
    (ht : setup.module.funcType? f = some type) (hargs : m.stack.typed? type.params = some args) :
    importCall? setup f m = some ⟨f, name, args, m.globals, m.image⟩ := by
  unfold importCall?
  simp only [hf, ht, hargs]
  rfl

/-- With the deciding operand off the stack, the arguments are on top. -/
theorem CallsImport.typed? (h : CallsImport setup m f name type args rest i) :
    (m.decided i).typed? type.params = some args := by
  have havailable := h.available
  refine OperandStack.typed?_of_values h.operands h.types ?_
  unfold OperandStack.available at *
  show _ ≤ m.stack.size - i.deciding - m.stack.floor
  omega

theorem CallsImport.asks? (h : CallsImport setup m f name type args rest i) :
    m.asks? setup i = some ⟨f, name, args, m.globals, m.image⟩ := by
  obtain ⟨t, hf⟩ := h.imported
  have hcall : importCall? setup f (m.setStack (m.decided i)) =
      some ⟨f, name, args, m.globals, m.image⟩ := importCall?_of_typed hf h.funcType h.typed?
  have hcallee := h.callee
  cases i with
  | call g =>
    cases hcallee
    exact hcall
  | callIndirect type =>
    unfold Machine.asks?
    simp only [hcallee, Option.bind_some]
    rw [h.funcType, h.signature type rfl, if_pos rfl]
    exact hcall
  | _ => exact absurd hcallee (by simp [callee?])

theorem CallsImport.hostCall? (h : CallsImport setup m f name type args rest i) :
    hostCall? setup m = some ⟨f, name, args, m.globals, m.image⟩ := by
  unfold Machine.hostCall?
  rw [h.instr]
  exact h.asks?

/-- What is left below the arguments. -/
theorem CallsImport.length_rest (h : CallsImport setup m f name type args rest i) :
    rest.length = ((m.decided i).pop args.length).size := by
  rw [OperandStack.size_pop, OperandStack.size_eq, h.operands, List.length_append,
    List.length_reverse, Nat.add_sub_cancel_left]

/-! ## What comes of it -/

/-- With room, the returned value takes the place of the arguments. -/
theorem commit_of_room
    (hroom : r.returned ≠ none → (m.stack.pop args.length).size < m.stack.limit) :
    m.commit args r = .next { m with
      stack := (m.stack.pop args.length).restoreAll r.returned.toList
      globals := r.globals
      memories := m.memories.modify 0 fun memory => memory.overwriteFront r.memory } := by
  unfold commit
  cases hr : r.returned with
  | none => rfl
  | some v =>
    have hlt : (m.stack.pop args.length).size < (m.stack.pop args.length).limit :=
      hroom (by simp [hr])
    simp only [OperandStack.push?, if_pos hlt]
    rfl

/-- Without, the arguments are put back. -/
theorem commit_of_full {types : List ValueType} (hargs : m.stack.typed? types = some args)
    (hfull : ¬ (r.returned ≠ none → (m.stack.pop args.length).size < m.stack.limit)) :
    m.commit args r = .fault .valueStackExhausted m := by
  obtain ⟨hreturned, hsize⟩ := Classical.not_imp.mp hfull
  obtain ⟨v, hv⟩ := Option.ne_none_iff_exists'.mp hreturned
  have hlimit : ¬ (m.stack.pop args.length).size < (m.stack.pop args.length).limit := hsize
  unfold commit
  simp only [hv, OperandStack.push?, if_neg hlimit, OperandStack.restoreAll_pop hargs]
  rfl

/-- A result is refused, or it is taken over and execution goes on behind the instruction. -/
theorem call_of_result (hf : setup.module.functions[f]? = some (.imported t name))
    (ht : setup.module.funcType? f = some type) (hargs : m.stack.typed? type.params = some args)
    (hreply : setup.bridge.fulfill ⟨f, name, args, m.globals, m.image⟩ = .result r) :
    (∀ cause, refusal? type m.globals r = some cause →
      m.call setup f = .fault (.refusedImport ⟨f, name, cause⟩) m) ∧
    (refusal? type m.globals r = none →
      (∀ m', m.commit args r = .next m' → m.call setup f = .next m'.advance) ∧
      ∀ fault, m.commit args r = .fault fault m → m.call setup f = .fault fault m) := by
  have hreply : setup.bridge.fulfill
      ⟨f, name, args, m.globals, (m.memory?.map (·.bytes)).getD .empty⟩ = .result r := hreply
  unfold Machine.call callImport
  simp only [hf, ht, hargs, hreply]
  refine ⟨fun cause hcause => ?_, fun hnone => ⟨fun m' hcommit => ?_, fun fault hcommit => ?_⟩⟩
  · simp only [hcause]
  · simp only [hnone, hcommit]
  · simp only [hnone, hcommit]

/-- **Both instructions come to what calling the function comes to**, once the slot of a call
through the table is off the stack; a fault puts it back. -/
theorem execute_of_call (watch : Breakpoints) (h : m.asks? setup i = some call) :
    (∀ m', (m.setStack (m.decided i)).call setup call.function = .next m' →
      m.execute setup watch i = .next m') ∧
    ∀ fault, (m.setStack (m.decided i)).call setup call.function =
        .fault fault (m.setStack (m.decided i)) →
      m.execute setup watch i = .fault fault m := by
  cases i with
  | call f =>
    have hfunction : call.function = f.toNat := by
      obtain ⟨_, _, -, -, -, hshown⟩ := importCall?_eq_some h
      rw [hshown]
    rw [hfunction]
    exact ⟨fun _ hnext => hnext, fun _ hfault => hfault⟩
  | callIndirect type =>
    obtain ⟨slot, hslot, -, hexecute⟩ := callIndirect_of_asks? h
    have hdecided : m.decided (.callIndirect type) = m.stack.pop 1 := rfl
    show (∀ m', _ → m.callIndirect setup type.toNat = _) ∧
      ∀ fault, _ → m.callIndirect setup type.toNat = _
    rw [hexecute, hdecided]
    refine ⟨fun m' hnext => ?_, fun fault hfault => ?_⟩
    · rw [hnext]
      rfl
    · rw [hfault]
      exact congrArg (Step.fault fault) (setStack_restore_pop hslot)
  | _ => exact absurd h (by simp [Machine.asks?])

/-- The machine after a result has been taken over. -/
def withResult (m : Machine) (i : Instr) (args : List Value) (r : ImportResult) : Machine :=
  { m with
    ip := ⟨m.ip.function, m.ip.instr + 1⟩
    stack := ((m.decided i).pop args.length).restoreAll r.returned.toList
    globals := r.globals
    memories := m.memories.modify 0 fun memory => memory.overwriteFront r.memory }

theorem CallsImport.committed (h : CallsImport setup m f name type args rest i) :
    Committed m rest r (m.withResult i args r) where
  ip := rfl
  operands := by
    -- one value at most, so it does not matter which comes first
    have hreverse : r.returned.toList.reverse = r.returned.toList := by
      cases r.returned <;> rfl
    show (((m.decided i).pop args.length).restoreAll r.returned.toList).values = _
    rw [OperandStack.values_restoreAll, OperandStack.values_pop, h.operands, hreverse,
      ← List.length_reverse, List.drop_left]
  floor := OperandStack.floor_restoreAll _
  limit := OperandStack.limit_restoreAll _
  frames := rfl
  tables := rfl
  globals := rfl
  memories := Array.size_modify
  memory := by
    intro memory hmemory
    refine ⟨memory.overwriteFront r.memory, ?_, memory.overwritten_overwriteFront r.memory⟩
    show (m.memories.modify 0 _)[0]? = _
    have hmemory : m.memories[0]? = some memory := hmemory
    rw [Array.getElem?_modify, if_pos rfl, hmemory]
    rfl
  otherMemories := by
    intro k hk
    show (m.memories.modify 0 _)[k]? = _
    rw [Array.getElem?_modify, if_neg (Nat.ne_of_lt hk)]

/-- **What a result comes to**: it is refused, it is taken over, or it finds no room. -/
theorem CallsImport.dispatch_of_result (h : CallsImport setup m f name type args rest i)
    (watch : Breakpoints)
    (hreply : setup.bridge.fulfill ⟨f, name, args, m.globals, m.image⟩ = .result r) :
    (∀ cause, refusal? type m.globals r = some cause →
      m.dispatch setup watch = .fault (.refusedImport ⟨f, name, cause⟩) m) ∧
    (refusal? type m.globals r = none →
      ((r.returned ≠ none → rest.length < m.stack.limit) →
        m.dispatch setup watch = .next (m.withResult i args r)) ∧
      (¬ (r.returned ≠ none → rest.length < m.stack.limit) →
        m.dispatch setup watch = .fault .valueStackExhausted m)) := by
  obtain ⟨t, hf⟩ := h.imported
  obtain ⟨hnext, hfault⟩ := execute_of_call watch h.asks?
  obtain ⟨hrefused, htaken⟩ :=
    call_of_result (m := m.setStack (m.decided i)) hf h.funcType h.typed? hreply
  rw [dispatch_eq_execute h.active h.instr, h.length_rest]
  refine ⟨fun cause hcause => hfault _ (hrefused cause hcause), fun hnone => ⟨?_, ?_⟩⟩
  · intro hroom
    exact hnext _ ((htaken hnone).1 _ (commit_of_room hroom))
  · intro hfull
    exact hfault _ ((htaken hnone).2 _ (commit_of_full h.typed? hfull))

/-- **Calls of imported functions commit as a whole or not at all.** When the instruction at the
position of a reachable machine calls an imported function, by its index or through the table, and
arguments of its parameters' types lie on the stack:

* the host is asked with the arguments in the order of the parameters, all globals and the bytes of
  the first memory, and whatever result it has for that is one of the following;
* a result that suits is taken over when its value finds room. It takes the place of the operands,
  the globals are the returned ones, the image covers the front of the memory, and execution goes on
  behind the instruction;
* a result that suits and finds no room is a fault of the value stack, and the machine is as before;
* a result that does not suit is refused with a fault that names the function, and the machine is as
  before. -/
theorem import_call_commits (hr : Reachable setup.module setup.limits m)
    (hc : CallsImport setup m f name type args rest i) (watch : Breakpoints)
    (hreply : setup.bridge.fulfill ⟨f, name, args, m.globals, m.image⟩ = .result r) :
    Machine.hostCall? setup m = some ⟨f, name, args, m.globals, m.image⟩ ∧
    (Suits setup.module type r → Room setup.limits rest r →
      ∃ m', m.dispatch setup watch = .next m' ∧ Committed m rest r m') ∧
    (Suits setup.module type r → ¬ Room setup.limits rest r →
      m.dispatch setup watch = .fault .valueStackExhausted m) ∧
    (¬ Suits setup.module type r →
      ∃ cause, m.dispatch setup watch = .fault (.refusedImport ⟨f, name, cause⟩) m) := by
  obtain ⟨new, -, hstored⟩ := stored_of_reachable hr
  have hsuits : refusal? type m.globals r = none ↔ Suits setup.module type r := by
    rw [refusal?_eq_none_iff, hstored.globals]
    exact ⟨fun h => ⟨h.1, h.2⟩, fun h => ⟨h.returned, h.globals⟩⟩
  have hroom : Room setup.limits rest r ↔ (r.returned ≠ none → rest.length < m.stack.limit) := by
    rw [(limited_of_reachable hr).limit]
    rfl
  obtain ⟨hrefused, htaken⟩ := hc.dispatch_of_result watch hreply
  refine ⟨hc.hostCall?, fun h hfits => ?_, fun h hfull => ?_, fun h => ?_⟩
  · exact ⟨_, (htaken (hsuits.mpr h)).1 (hroom.mp hfits), hc.committed⟩
  · exact (htaken (hsuits.mpr h)).2 fun hfits => hfull (hroom.mpr hfits)
  · obtain ⟨cause, hcause⟩ := Option.ne_none_iff_exists'.mp fun hnone => h (hsuits.mp hnone)
    exact ⟨cause, hrefused cause hcause⟩

/-- A value, a global and the first two bytes of an image. -/
def shortResult : ImportResult := ⟨some (.i32 7), #[.i32 9], ⟨#[1, 2]⟩⟩

/-- A function that calls an imported one through the table, with two arguments. -/
def mixing : Setup where
  module :=
    { types := #[⟨[.i32, .i64], [.i32]⟩, ⟨[], []⟩]
      functions := #[.imported 0 ⟨"env", "mix"⟩,
        .defined 1 [] #[.const (.i32 1), .const (.i64 2), .const (.i32 0), .callIndirect 0, .drop,
          .blockEnd]]
      globals := #[⟨.i32, true, .init (.const (.i32 5))⟩]
      memories := #[⟨⟨1, none⟩, none⟩]
      tables := #[⟨⟨1, none⟩, none⟩]
      elements := [⟨0, .const (.i32 0), [0]⟩] }
  limits := {}
  bridge := .host { byIndex := [(0, fun _ => ⟨.result shortResult, 0⟩)] }

/-- Its machine before anything is called. -/
def unmixed : Machine where
  ip := ⟨0, 0⟩
  stack := .empty 1048576
  frames := []
  globals := #[.i32 5]
  memories := #[.ofLimits ⟨1, none⟩ maxPages]
  tables := #[#[some 0]]

/-- It, about to call. -/
def aboutToMix : Machine :=
  { unmixed with
    ip := ⟨1, 3⟩
    stack := (OperandStack.empty 1048576).restoreAll [.i32 1, .i64 2, .i32 0]
    frames := [⟨1, #[], ⟨0, 0⟩, 0, []⟩] }

theorem reachable_aboutToMix : Reachable mixing.module mixing.limits aboutToMix := by
  have hnew : instantiate? mixing.module mixing.limits = .ok unmixed := by
    unfold instantiate? mixing
    simp only [List.map_toArray, List.map_cons, List.map_nil]
    rfl
  have hcalled : Reachable mixing.module mixing.limits
      (Execution.enterEntry mixing 1 [] unmixed).machine :=
    .called mixing.bridge (.created hnew) rfl
  have hfirst := hcalled.dispatched mixing.bridge {}
  exact (hfirst.dispatched mixing.bridge {}).dispatched mixing.bridge {}

/-- The value is on the stack, the global is set, and the bytes are there. -/
theorem import_call_commits_mixing :
    Reachable mixing.module mixing.limits aboutToMix ∧
      CallsImport mixing aboutToMix 0 ⟨"env", "mix"⟩ ⟨[.i32, .i64], [.i32]⟩ [.i32 1, .i64 2] []
        (.callIndirect 0) ∧
      ∃ m', aboutToMix.dispatch mixing {} = .next m' ∧ m'.stack.values = [.i32 7] ∧
        m'.globals = #[.i32 9] ∧ Committed aboutToMix [] shortResult m' := by
  have hc : CallsImport mixing aboutToMix 0 ⟨"env", "mix"⟩ ⟨[.i32, .i64], [.i32]⟩
      [.i32 1, .i64 2] [] (.callIndirect 0) :=
    { active := by decide
      instr := rfl
      callee := rfl
      signature := by
        rintro t ⟨rfl⟩
        rfl
      imported := ⟨0, rfl⟩
      funcType := rfl
      operands := rfl
      types := rfl
      available := by decide }
  have hreply : mixing.bridge.fulfill
      ⟨0, ⟨"env", "mix"⟩, [.i32 1, .i64 2], aboutToMix.globals, aboutToMix.image⟩ =
        .result shortResult := rfl
  obtain ⟨-, htaken, -⟩ := import_call_commits reachable_aboutToMix hc {} hreply
  have hsuits : Suits mixing.module ⟨[.i32, .i64], [.i32]⟩ shortResult :=
    ⟨rfl, by simp [shortResult, mixing, Value.type]⟩
  obtain ⟨m', hnext, hm'⟩ := htaken hsuits fun _ => by decide
  exact ⟨reachable_aboutToMix, hc, m', hnext, hm'.operands, hm'.globals, hm'⟩

end Machine

end WasmDebugger
