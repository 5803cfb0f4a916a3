import WasmDebugger.Value

/-!
# Operations

What an instruction does, apart from its immediates.

* `NumericOp`, `LoadOp`, `StoreOp`: the families whose members differ in width, sign or rule.
* `Opcode`: all operations. `Opcode.table` gives each its byte, once; `Opcode.ofByte?` and
  `Opcode.byte` read it in the two directions, `Opcode.ofName?` and `Opcode.name` are the
  mnemonics.
* `Immediate`: the layout of what follows an operation's byte.
-/

namespace WasmDebugger

/-! ## Numeric operations -/

inductive IntRelation where
  | eq | ne | ltS | ltU | gtS | gtU | leS | leU | geS | geU
  deriving DecidableEq, Repr

inductive IntUnary where
  | clz | ctz | popcnt
  deriving DecidableEq, Repr

inductive IntBinary where
  | add | sub | mul | divS | divU | remS | remU | and | or | xor | shl | shrS | shrU | rotl | rotr
  deriving DecidableEq, Repr

inductive FloatRelation where
  | eq | ne | lt | gt | le | ge
  deriving DecidableEq, Repr

inductive FloatUnary where
  | abs | neg | ceil | floor | trunc | nearest | sqrt
  deriving DecidableEq, Repr

inductive FloatBinary where
  | add | sub | mul | div | min | max | copysign
  deriving DecidableEq, Repr

/-- An integer type together with a narrower width that is read from it or stored for it. -/
inductive Narrow where
  | i32As8 | i32As16 | i64As8 | i64As16 | i64As32
  deriving DecidableEq, Repr

inductive NumericOp where
  | eqz (w : Width)
  | intCompare (w : Width) (relation : IntRelation)
  | floatCompare (w : Width) (relation : FloatRelation)
  | intUnary (w : Width) (op : IntUnary)
  | intBinary (w : Width) (op : IntBinary)
  | floatUnary (w : Width) (op : FloatUnary)
  | floatBinary (w : Width) (op : FloatBinary)
  /-- The low half of a 64-bit integer. -/
  | wrap
  /-- A 32-bit integer widened. -/
  | extend (isSigned : Bool)
  /-- A float cut to an integer. -/
  | truncate (target source : Width) (isSigned : Bool)
  /-- The float nearest to an integer. -/
  | convert (target source : Width) (isSigned : Bool)
  | demote
  | promote
  /-- The bits of a float as an integer. -/
  | reinterpretFloat (w : Width)
  /-- The bits of an integer as a float. -/
  | reinterpretInt (w : Width)
  /-- The low bits of an integer read as a signed number. -/
  | extendLow (part : Narrow)
  deriving DecidableEq, Repr

namespace Narrow

def width : Narrow → Width
  | .i32As8 | .i32As16 => .w32
  | .i64As8 | .i64As16 | .i64As32 => .w64

/-- The width in memory. -/
def bits : Narrow → Nat
  | .i32As8 | .i64As8 => 8
  | .i32As16 | .i64As16 => 16
  | .i64As32 => 32

def bytes (part : Narrow) : Nat := part.bits / 8

def all : List Narrow := [.i32As8, .i32As16, .i64As8, .i64As16, .i64As32]

end Narrow

def IntRelation.all : List IntRelation := [.eq, .ne, .ltS, .ltU, .gtS, .gtU, .leS, .leU, .geS, .geU]

def IntUnary.all : List IntUnary := [.clz, .ctz, .popcnt]

def IntBinary.all : List IntBinary :=
  [.add, .sub, .mul, .divS, .divU, .remS, .remU, .and, .or, .xor, .shl, .shrS, .shrU, .rotl, .rotr]

def FloatRelation.all : List FloatRelation := [.eq, .ne, .lt, .gt, .le, .ge]

def FloatUnary.all : List FloatUnary := [.abs, .neg, .ceil, .floor, .trunc, .nearest, .sqrt]

def FloatBinary.all : List FloatBinary := [.add, .sub, .mul, .div, .min, .max, .copysign]

def IntRelation.name : IntRelation → String
  | .eq => "eq" | .ne => "ne" | .ltS => "lt_s" | .ltU => "lt_u" | .gtS => "gt_s"
  | .gtU => "gt_u" | .leS => "le_s" | .leU => "le_u" | .geS => "ge_s" | .geU => "ge_u"

def IntUnary.name : IntUnary → String
  | .clz => "clz" | .ctz => "ctz" | .popcnt => "popcnt"

def IntBinary.name : IntBinary → String
  | .add => "add" | .sub => "sub" | .mul => "mul" | .divS => "div_s" | .divU => "div_u"
  | .remS => "rem_s" | .remU => "rem_u" | .and => "and" | .or => "or" | .xor => "xor"
  | .shl => "shl" | .shrS => "shr_s" | .shrU => "shr_u" | .rotl => "rotl" | .rotr => "rotr"

def FloatRelation.name : FloatRelation → String
  | .eq => "eq" | .ne => "ne" | .lt => "lt" | .gt => "gt" | .le => "le" | .ge => "ge"

def FloatUnary.name : FloatUnary → String
  | .abs => "abs" | .neg => "neg" | .ceil => "ceil" | .floor => "floor" | .trunc => "trunc"
  | .nearest => "nearest" | .sqrt => "sqrt"

def FloatBinary.name : FloatBinary → String
  | .add => "add" | .sub => "sub" | .mul => "mul" | .div => "div" | .min => "min"
  | .max => "max" | .copysign => "copysign"

private def signSuffix (isSigned : Bool) : String := if isSigned then "_s" else "_u"

namespace NumericOp

/-- The comparisons and arithmetic of one type stand together, in the order of the families. -/
def all : List NumericOp := List.flatten
  [Width.all.flatMap fun w => .eqz w :: IntRelation.all.map (.intCompare w ·),
   Width.all.flatMap fun w => FloatRelation.all.map (.floatCompare w ·),
   Width.all.flatMap fun w => IntUnary.all.map (.intUnary w ·) ++ IntBinary.all.map (.intBinary w ·),
   Width.all.flatMap fun w =>
    FloatUnary.all.map (.floatUnary w ·) ++ FloatBinary.all.map (.floatBinary w ·),
   [.wrap],
   Width.all.flatMap fun source => [.truncate .w32 source true, .truncate .w32 source false],
   [.extend true, .extend false],
   Width.all.flatMap fun source => [.truncate .w64 source true, .truncate .w64 source false],
   Width.all.flatMap fun source => [.convert .w32 source true, .convert .w32 source false],
   [.demote],
   Width.all.flatMap fun source => [.convert .w64 source true, .convert .w64 source false],
   [.promote],
   Width.all.map .reinterpretFloat,
   Width.all.map .reinterpretInt,
   Narrow.all.map .extendLow]

private def intName (w : Width) : String := (ValueType.int w).name
private def floatName (w : Width) : String := (ValueType.float w).name

def name : NumericOp → String
  | .eqz w => intName w ++ ".eqz"
  | .intCompare w r => intName w ++ "." ++ r.name
  | .floatCompare w r => floatName w ++ "." ++ r.name
  | .intUnary w op => intName w ++ "." ++ op.name
  | .intBinary w op => intName w ++ "." ++ op.name
  | .floatUnary w op => floatName w ++ "." ++ op.name
  | .floatBinary w op => floatName w ++ "." ++ op.name
  | .wrap => "i32.wrap_i64"
  | .extend s => "i64.extend_i32" ++ signSuffix s
  | .truncate t src s => intName t ++ ".trunc_" ++ floatName src ++ signSuffix s
  | .convert t src s => floatName t ++ ".convert_" ++ intName src ++ signSuffix s
  | .demote => "f32.demote_f64"
  | .promote => "f64.promote_f32"
  | .reinterpretFloat w => intName w ++ ".reinterpret_" ++ floatName w
  | .reinterpretInt w => floatName w ++ ".reinterpret_" ++ intName w
  | .extendLow part => intName part.width ++ ".extend" ++ toString part.bits ++ "_s"

end NumericOp

/-! ## Memory access -/

inductive LoadOp where
  /-- As many bytes as the type has. -/
  | whole (type : ValueType)
  | narrow (part : Narrow) (isSigned : Bool)
  deriving DecidableEq, Repr

inductive StoreOp where
  | whole (type : ValueType)
  | narrow (part : Narrow)
  deriving DecidableEq, Repr

namespace LoadOp

def all : List LoadOp :=
  ValueType.all.map .whole ++ Narrow.all.flatMap fun part => [.narrow part true, .narrow part false]

def name : LoadOp → String
  | .whole t => t.name ++ ".load"
  | .narrow part s => (ValueType.int part.width).name ++ ".load" ++ toString part.bits ++ signSuffix s

/-- How many bytes are read. -/
def bytes : LoadOp → Nat
  | .whole t => t.width.bits / 8
  | .narrow part _ => part.bytes

end LoadOp

namespace StoreOp

def all : List StoreOp := ValueType.all.map .whole ++ Narrow.all.map .narrow

def name : StoreOp → String
  | .whole t => t.name ++ ".store"
  | .narrow part => (ValueType.int part.width).name ++ ".store" ++ toString part.bits

/-- How many bytes are written. -/
def bytes : StoreOp → Nat
  | .whole t => t.width.bits / 8
  | .narrow part => part.bytes

end StoreOp

/-- The exponent of the alignment that fits an access of so many bytes. -/
def naturalAlign (bytes : Nat) : UInt32 := bytes.log2.toUInt32

/-! ## All operations -/

/-- What follows an operation's byte in the binary format. -/
inductive Immediate where
  | none | blockType | label | labelTable | index | callIndirect | memArg | memoryIndex
  | const (type : ValueType)
  deriving DecidableEq, Repr

inductive Opcode where
  | unreachable | nop | block | loop | ifThen | elseThen | blockEnd | br | brIf | brTable | ret
  | call | callIndirect | drop | select | localGet | localSet | localTee | globalGet | globalSet
  | load (op : LoadOp)
  | store (op : StoreOp)
  | memorySize | memoryGrow
  | const (type : ValueType)
  | numeric (op : NumericOp)
  deriving DecidableEq, Repr

namespace Opcode

/-- Runs of operations with consecutive bytes, each run with its first byte. -/
def runs : List (Nat × List Opcode) :=
  [(0x00, [.unreachable, .nop, .block, .loop, .ifThen, .elseThen]),
   (0x0B, [.blockEnd, .br, .brIf, .brTable, .ret, .call, .callIndirect]),
   (0x1A, [.drop, .select]),
   (0x20, [.localGet, .localSet, .localTee, .globalGet, .globalSet]),
   (0x28, LoadOp.all.map .load ++ StoreOp.all.map .store ++ [.memorySize, .memoryGrow] ++
     ValueType.all.map .const ++ NumericOp.all.map .numeric)]

/-- Each operation with its byte. -/
def table : List (UInt8 × Opcode) :=
  runs.flatMap fun (first, ops) => (ops.zipIdx first).map fun (op, byte) => (byte.toUInt8, op)

def ofByte? (byte : UInt8) : Option Opcode := table.lookup byte

def byte (op : Opcode) : UInt8 :=
  ((table.find? fun entry => entry.2 = op).map (·.1)).getD 0

def name : Opcode → String
  | .unreachable => "unreachable"
  | .nop => "nop"
  | .block => "block"
  | .loop => "loop"
  | .ifThen => "if"
  | .elseThen => "else"
  | .blockEnd => "end"
  | .br => "br"
  | .brIf => "br_if"
  | .brTable => "br_table"
  | .ret => "return"
  | .call => "call"
  | .callIndirect => "call_indirect"
  | .drop => "drop"
  | .select => "select"
  | .localGet => "local.get"
  | .localSet => "local.set"
  | .localTee => "local.tee"
  | .globalGet => "global.get"
  | .globalSet => "global.set"
  | .load op => op.name
  | .store op => op.name
  | .memorySize => "memory.size"
  | .memoryGrow => "memory.grow"
  | .const t => t.name ++ ".const"
  | .numeric op => op.name

def ofName? (text : String) : Option Opcode :=
  (table.find? fun entry => entry.2.name = text).map (·.2)

def immediate : Opcode → Immediate
  | .block | .loop | .ifThen => .blockType
  | .br | .brIf => .label
  | .brTable => .labelTable
  | .call | .localGet | .localSet | .localTee | .globalGet | .globalSet => .index
  | .callIndirect => .callIndirect
  | .load _ | .store _ => .memArg
  | .memorySize | .memoryGrow => .memoryIndex
  | .const t => .const t
  | _ => .none

/-! The name and layout asked of a byte; one that is no operation has a name too. -/

def nameOfByte (byte : UInt8) : String := ((ofByte? byte).map name).getD "<invalid>"

def immediateOfByte (byte : UInt8) : Immediate := ((ofByte? byte).map immediate).getD .none

end Opcode

end WasmDebugger
