import WasmDebugger.Machine

/-!
# Calls and branches

* `Machine.branch`: leaves labels and goes on at the target's continuation.
* `Machine.call`, `Machine.callIndirect`: enter a defined function or ask the host.
* `Machine.returnFromFunction`: hands the results to the caller.

An operand that decides whether or where to go is taken off the stack first and put back when the
instruction faults.
-/

namespace WasmDebugger

/-- Puts an operand back that was taken off the stack before a fault. -/
def Step.putBack (v : Value) : Step → Step
  | .fault f m => .fault f (m.setStack (m.stack.restore v))
  | s => s

namespace Machine

/-! ## Leaving a function or a block -/

/-- Results have to be there in number and types. Anything else that the function left on the
stack is dropped. -/
def returnFromFunction (setup : Setup) (m : Machine) : Step :=
  match m.frames with
  | [] => .fault .typeMismatch m
  | frame :: callers =>
    match (setup.module.funcType? frame.function).bind fun t => m.stack.typed? t.results with
    | none => .fault .typeMismatch m
    | some results =>
      let stack := (m.stack.truncate frame.base).restoreAll results
      match callers with
      | [] => .finished { m with stack := stack.setFloor 0, frames := [] }
      | caller :: _ =>
        .next { m with stack := stack.setFloor caller.base, frames := callers, ip := frame.returnTo }

/-- Branches to the label `depth` levels out; one level past the last label is the function. -/
def branch (setup : Setup) (depth : Nat) (m : Machine) : Step :=
  match m.frames with
  | [] => .fault .typeMismatch m
  | frame :: callers =>
    if depth = frame.labels.length then m.returnFromFunction setup
    else
      match frame.labels[depth]? with
      | none => .fault .typeMismatch m
      | some label =>
        if m.stack.size < label.height + label.arity then .fault .typeMismatch m
        else
          let carried := (m.stack.values.take label.arity).reverse
          let stack := (m.stack.truncate label.height).restoreAll carried
          let frame := { frame with labels := frame.labels.drop (depth + 1) }
          let target := if label.isLoop then label.continuation else label.continuation + 1
          .next ({ m with stack := stack, frames := frame :: callers }.setPosition target)

/-! ## Imported functions -/

/-- Why a result of the host cannot be used, if it cannot. -/
def refusal? (type : FuncType) (globals : Array Value) (r : ImportResult) : Option RefusalCause :=
  if 1 < type.results.length then some .multipleResults
  else
    match type.results, r.returned with
    | [], some _ | _ :: _, none => some .resultMissing
    | [], none => globalRefusal?
    | t :: _, some v => if v.type = t then globalRefusal? else some .resultType
where
  globalRefusal? : Option RefusalCause :=
    if r.globals.size ≠ globals.size then some .globalCount
    else
      (List.findIdx? (fun (a, b) => a ≠ b)
        ((r.globals.toList.map Value.type).zip (globals.toList.map Value.type))).map .globalType

/-- The first memory, if there is one. -/
def memory? (m : Machine) : Option LinearMemory := m.memories[0]?

/-- Takes over what the host hands back. The arguments are put back if the returned value finds no
room. -/
def commit (m : Machine) (args : List Value) (r : ImportResult) : Step :=
  let stack := m.stack.pop args.length
  let pushed? := match r.returned with
    | none => some stack
    | some v => stack.push? v
  match pushed? with
  | none => .fault .valueStackExhausted (m.setStack (stack.restoreAll args))
  | some stack =>
    .next { m with
      stack := stack
      globals := r.globals
      memories := m.memories.modify 0 fun memory => memory.overwriteFront r.memory }

/-- Asks the host for function `f`. The position stays. -/
def callImport (setup : Setup) (f : Nat) (m : Machine) : Step :=
  match setup.module.functions[f]?, setup.module.funcType? f with
  | some (.imported _ name), some type =>
    match m.stack.typed? type.params with
    | none => .fault .typeMismatch m
    | some args =>
      let memory := (m.memory?.map (·.bytes)).getD .empty
      match setup.bridge.fulfill ⟨f, name, args, m.globals, memory⟩ with
      | .failed message => .fault (.refusedImport ⟨f, name, .host message⟩) m
      | .threw message => .threw message m
      | .result r =>
        match refusal? type m.globals r with
        | some cause => .fault (.refusedImport ⟨f, name, cause⟩) m
        | none => m.commit args r
  | _, _ => .fault .typeMismatch m

/-! ## Calls -/

/-- Enters a defined function: arguments become its first locals and the others start at zero. -/
def enter (setup : Setup) (f : Nat) (type : FuncType) (locals : List ValueType) (m : Machine) :
    Step :=
  if setup.limits.maxCallDepth ≤ m.depth then .fault .callStackExhausted m
  else
    match m.stack.typed? type.params with
    | none => .fault .typeMismatch m
    | some args =>
      let stack := m.stack.pop type.params.length
      let frame : Frame :=
        { function := f
          locals := (args ++ locals.map Value.zero).toArray
          returnTo := ⟨m.ip.function, m.ip.instr + 1⟩
          base := stack.size
          labels := [] }
      .next { m with
        stack := stack.setFloor stack.size
        frames := frame :: m.frames
        ip := ⟨f, 0⟩ }

def call (setup : Setup) (f : Nat) (m : Machine) : Step :=
  match setup.module.functions[f]?, setup.module.funcType? f with
  | some (.imported _ _), some _ =>
    match m.callImport setup f with
    | .next m => .next m.advance
    | s => s
  | some (.defined _ locals _), some type => m.enter setup f type locals
  | _, _ => .fault .typeMismatch m

/-- The function in a slot of the first table. -/
def element? (m : Machine) (slot : Nat) : Option UInt32 := do
  let table ← m.tables[0]?
  let entry ← table[slot]?
  entry

/-- Calls through the first table. The function's signature has to equal the type that the
instruction names. -/
def callIndirect (setup : Setup) (type : Nat) (m : Machine) : Step :=
  match (m.stack.peek? 0).bind (Value.asInt? .w32) with
  | none => .fault .typeMismatch m
  | some slot =>
    match m.element? slot.toNat with
    | none => .fault .undefinedElement m
    | some f =>
      match setup.module.types[type]? with
      | none => .fault .typeMismatch m
      | some expected =>
        if setup.module.funcType? f.toNat = some expected then
          ((m.setStack (m.stack.pop 1)).call setup f.toNat).putBack (.i32 slot)
        else .fault .indirectCallType m

end Machine

end WasmDebugger
