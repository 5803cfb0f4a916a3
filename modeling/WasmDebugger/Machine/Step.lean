import WasmDebugger.Machine.Control
import WasmDebugger.Machine.Numeric

/-!
# One instruction

* `Machine.execute`: carries out an instruction at the current position.
* `Machine.dispatch`: carries out the instruction that the position names.

Watchpoints are looked up when the instruction is done, so a machine that stops at one has already
changed.
-/

namespace WasmDebugger.Machine

/-! ## Blocks -/

/-- Enters a label of the innermost frame. -/
def pushLabel (m : Machine) (label : Label) : Machine :=
  match m.frames with
  | [] => m
  | frame :: callers =>
    { m with frames := { frame with labels := label :: frame.labels } :: callers }

def resultArity (result : Option ValueType) : Nat := if result.isSome then 1 else 0

/-- Enters a block. Without a target it faults. It is an invariant of modules that their bodies are
resolved, and none that has been read or assembled breaks it; what becomes of a body outside the
invariant is not modelled. -/
def executeBlock (m : Machine) (result : Option ValueType) (endAt : Option Nat) : Step :=
  match endAt with
  | none => .fault .typeMismatch m
  | some target =>
    .next (m.pushLabel ⟨target, resultArity result, m.stack.size, false⟩).advance

def executeLoop (m : Machine) : Step :=
  .next (m.pushLabel ⟨m.ip.instr, 0, m.stack.size, true⟩).advance

/-- A zero goes to the other arm, or to the `end` when there is none. Without an `end` it faults like
a block. -/
def executeIf (m : Machine) (result : Option ValueType) (endAt elseAt : Option Nat) : Step :=
  match (m.stack.peek? 0).bind (Value.asInt? .w32), endAt with
  | some condition, some target =>
    let stack := m.stack.pop 1
    let entered := (m.setStack stack).pushLabel ⟨target, resultArity result, stack.size, false⟩
    if condition = 0 then
      match elseAt with
      | some arm => .next (entered.setPosition (arm + 1))
      | none => .next (entered.setPosition target)
    else .next entered.advance
  | _, _ => .fault .typeMismatch m

/-- Leaves the innermost label, or the function when there is none. -/
def executeEnd (setup : Setup) (m : Machine) : Step :=
  match m.frames with
  | [] => .fault .typeMismatch m
  | frame :: callers =>
    match frame.labels with
    | [] => m.returnFromFunction setup
    | _ :: labels => .next { m with frames := { frame with labels := labels } :: callers }.advance

def executeBrIf (setup : Setup) (m : Machine) (depth : Nat) : Step :=
  match (m.stack.peek? 0).bind (Value.asInt? .w32) with
  | none => .fault .typeMismatch m
  | some condition =>
    let popped := m.setStack (m.stack.pop 1)
    if condition = 0 then .next popped.advance
    else (popped.branch setup depth).putBack (.i32 condition)

/-- The last depth is for every selector past the others. -/
def executeBrTable (setup : Setup) (m : Machine) (depths : List UInt32) : Step :=
  match (m.stack.peek? 0).bind (Value.asInt? .w32), depths.getLast? with
  | some selector, some otherwise =>
    let depth := depths[selector.toNat]?.getD otherwise
    ((m.setStack (m.stack.pop 1)).branch setup depth.toNat).putBack (.i32 selector)
  | _, _ => .fault .typeMismatch m

/-! ## Operands and variables -/

/-- Pushes a value if the stack has room. -/
def executePush (m : Machine) (v : Value) : Step :=
  match m.stack.push? v with
  | none => .fault .valueStackExhausted m
  | some s => .next (m.setStack s).advance

def executeDrop (m : Machine) : Step :=
  if m.stack.available = 0 then .fault .typeMismatch m
  else .next (m.setStack (m.stack.pop 1)).advance

/-- Keeps the deeper of two values of one type unless the condition is zero. -/
def executeSelect (m : Machine) : Step :=
  match m.stack.peek? 2, m.stack.peek? 1, (m.stack.peek? 0).bind (Value.asInt? .w32) with
  | some first, some second, some condition =>
    if first.type = second.type then
      .next (m.setStack (m.stack.replace 3 (if condition = 0 then second else first))).advance
    else .fault .typeMismatch m
  | _, _, _ => .fault .typeMismatch m

def executeLocalGet (m : Machine) (index : Nat) : Step :=
  match m.frames.head?.bind fun frame => frame.locals[index]? with
  | none => .fault .typeMismatch m
  | some v => m.executePush v

/-- Whether a value may take the place of another. -/
def fits (v : Value) : Option Value → Bool
  | none => false
  | some old => v.type = old.type

/-- Assigns the top operand to a local; `keep` says whether it stays on the stack. -/
def executeLocalSet (m : Machine) (index : Nat) (keep : Bool) : Step :=
  match m.stack.peek? 0, m.frames with
  | some v, frame :: callers =>
    if fits v frame.locals[index]? then
      let frame := { frame with locals := frame.locals.setIfInBounds index v }
      let stack := if keep then m.stack else m.stack.pop 1
      .next { m with stack := stack, frames := frame :: callers }.advance
    else .fault .typeMismatch m
  | _, _ => .fault .typeMismatch m

def executeGlobalGet (watch : Breakpoints) (m : Machine) (index : Nat) : Step :=
  match m.globals[index]? with
  | none => .fault .typeMismatch m
  | some v =>
    match m.stack.push? v with
    | none => .fault .valueStackExhausted m
    | some s => (m.setStack s).advance.watchedAt (watch.findGlobal index .read)

def isMutable (setup : Setup) (index : Nat) : Bool := setup.module.globals[index]?.any (·.isMutable)

def executeGlobalSet (setup : Setup) (watch : Breakpoints) (m : Machine) (index : Nat) : Step :=
  match m.stack.peek? 0 with
  | none => .fault .typeMismatch m
  | some v =>
    if fits v m.globals[index]? && isMutable setup index then
      let m := { m with globals := m.globals.setIfInBounds index v, stack := m.stack.pop 1 }
      m.advance.watchedAt (watch.findGlobal index .write)
    else .fault .typeMismatch m

/-! ## Memory -/

/-- An address operand plus the static offset, which may lie past 32 bits. -/
def effective (address : BitVec 32) (arg : MemArg) : Nat := address.toNat + arg.offset.toNat

/-- The watchpoint that an access to memory hits. -/
def memoryWatch (watch : Breakpoints) (address bytes : Nat) (access : Trigger) : Option UInt32 :=
  watch.findMemory address.toUInt64 bytes.toUInt64 access

def executeLoad (watch : Breakpoints) (m : Machine) (op : LoadOp) (arg : MemArg) : Step :=
  match m.memory? with
  | none => .fault .noMemory m
  | some memory =>
    match (m.stack.peek? 0).bind (Value.asInt? .w32) with
    | none => .fault .typeMismatch m
    | some base =>
      let address := effective base arg
      match memory.read? address op.bytes with
      | none => .fault .memoryOutOfBounds m
      | some n =>
        let m := m.setStack (m.stack.replace 1 (op.value n))
        m.advance.watchedAt (memoryWatch watch address op.bytes .read)

/-- Writes to the first memory. -/
def writeMemory (m : Machine) (address length n : Nat) : Machine :=
  { m with memories := m.memories.modify 0 fun memory => memory.write address length n }

def executeStore (watch : Breakpoints) (m : Machine) (op : StoreOp) (arg : MemArg) : Step :=
  if m.memories.isEmpty then .fault .noMemory m
  else
    match (m.stack.peek? 0).bind op.operand?, (m.stack.peek? 1).bind (Value.asInt? .w32) with
    | some n, some base =>
      let address := effective base arg
      if m.memory?.any fun memory => memory.inBounds address op.bytes then
        let m := m.setStack (m.stack.pop 2)
        let m := m.writeMemory address op.bytes n
        m.advance.watchedAt (memoryWatch watch address op.bytes .write)
      else .fault .memoryOutOfBounds m
    | _, _ => .fault .typeMismatch m

def executeMemorySize (m : Machine) : Step :=
  match m.memory? with
  | none => .fault .noMemory m
  | some memory => m.executePush (.i32 memory.pages.toBitVec)

/-- Answers with the old number of pages, or with minus one when the memory cannot grow so far. -/
def executeMemoryGrow (m : Machine) : Step :=
  match m.memory? with
  | none => .fault .noMemory m
  | some memory =>
    match (m.stack.peek? 0).bind (Value.asInt? .w32) with
    | none => .fault .typeMismatch m
    | some delta =>
      let answer (v : BitVec 32) : OperandStack := m.stack.replace 1 (.i32 v)
      match memory.grow? (.ofBitVec delta) with
      | none => .next (m.setStack (answer (BitVec.allOnes 32))).advance
      | some grown =>
        .next { m with
          stack := answer memory.pages.toBitVec
          memories := m.memories.setIfInBounds 0 grown }.advance

/-! ## All instructions -/

def execute (setup : Setup) (watch : Breakpoints) (m : Machine) : Instr → Step
  | .unreachable => .fault .unreachable m
  | .nop => .next m.advance
  | .block result endAt => m.executeBlock result endAt
  | .loop _ _ => m.executeLoop
  | .ifThen result endAt elseAt => m.executeIf result endAt elseAt
  | .elseThen endAt =>
    match endAt with
    | none => .fault .typeMismatch m
    | some target => .next (m.setPosition target)
  | .blockEnd => m.executeEnd setup
  | .br depth => m.branch setup depth.toNat
  | .brIf depth => m.executeBrIf setup depth.toNat
  | .brTable depths => m.executeBrTable setup depths
  | .ret => m.returnFromFunction setup
  | .call f => m.call setup f.toNat
  | .callIndirect type => m.callIndirect setup type.toNat
  | .drop => m.executeDrop
  | .select => m.executeSelect
  | .localGet index => m.executeLocalGet index.toNat
  | .localSet index => m.executeLocalSet index.toNat false
  | .localTee index => m.executeLocalSet index.toNat true
  | .globalGet index => m.executeGlobalGet watch index.toNat
  | .globalSet index => m.executeGlobalSet setup watch index.toNat
  | .load op arg => m.executeLoad watch op arg
  | .store op arg => m.executeStore watch op arg
  | .memorySize => m.executeMemorySize
  | .memoryGrow => m.executeMemoryGrow
  | .const v => m.executePush v
  | .numeric op => m.withStack (op.run m.stack)

/-- The instruction at a position. -/
def fetch? (setup : Setup) (ip : Position) : Option Instr :=
  (setup.module.code? ip.function).bind fun code => code[ip.instr]?

/-- Carries out the instruction at the current position. Without a frame there is nothing left to
do. -/
def dispatch (setup : Setup) (watch : Breakpoints) (m : Machine) : Step :=
  match m.frames with
  | [] => .finished m
  | _ :: _ =>
    match fetch? setup m.ip with
    | none => .fault .typeMismatch m
    | some i => m.execute setup watch i

end WasmDebugger.Machine
