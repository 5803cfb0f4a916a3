import WasmDebugger.Instr

/-!
# Modules

The static content of a module: signatures, functions, tables, memories, globals, exports and the
segments that fill tables and memories when the module is instantiated.

What a function, table, memory or global *is* depends on whether the host provides it, so an
imported function has no body and an imported global no initializer by their types.
-/

namespace WasmDebugger

/-- Bytes in a page of linear memory. -/
def pageSize : Nat := 65536

/-- The most pages that 32-bit addresses reach. -/
def maxPages : Nat := 65536

structure FuncType where
  params : List ValueType
  results : List ValueType
  deriving DecidableEq, Repr, Inhabited

/-- The two-level name of something that the host provides. -/
structure ImportName where
  module : String
  field : String
  deriving DecidableEq, Repr

/-- Runs of equal types, with their lengths. -/
def runLengths : List ValueType → List (ValueType × Nat)
  | [] => []
  | t :: rest =>
    match runLengths rest with
    | (u, n) :: more => if t = u then (u, n + 1) :: more else (t, 1) :: (u, n) :: more
    | [] => [(t, 1)]

inductive Function where
  | imported (type : UInt32) (name : ImportName)
  /-- The declared locals follow the parameters. -/
  | defined (type : UInt32) (locals : List ValueType) (code : Array Instr)
  deriving DecidableEq, Repr

instance : Inhabited Function := ⟨.defined 0 [] #[]⟩

namespace Function

/-- The index of the signature. -/
def type : Function → UInt32
  | .imported t _ => t
  | .defined t _ _ => t

def withType (t : UInt32) : Function → Function
  | .imported _ name => .imported t name
  | .defined _ locals code => .defined t locals code

def isImported : Function → Bool
  | .imported _ _ => true
  | .defined _ _ _ => false

/-- The body; an imported function has none. -/
def code? : Function → Option (Array Instr)
  | .imported _ _ => none
  | .defined _ _ code => some code

end Function

structure Limits where
  min : UInt32
  max : Option UInt32
  deriving DecidableEq, Repr

/-- A constant expression: a literal, or the value of an earlier global. -/
inductive InitExpr where
  | const (value : Value)
  | globalGet (index : UInt32)
  deriving DecidableEq, Repr

inductive GlobalSource where
  | imported (name : ImportName)
  | init (value : InitExpr)
  deriving DecidableEq, Repr

structure Global where
  type : ValueType
  isMutable : Bool
  source : GlobalSource
  deriving DecidableEq, Repr

/-- A memory or a table of function references, and its name if the host provides it. -/
structure Storage where
  limits : Limits
  source : Option ImportName
  deriving DecidableEq, Repr

inductive ExternalKind where
  | function
  | table
  | memory
  | global
  deriving DecidableEq, Repr

structure Export where
  name : String
  kind : ExternalKind
  index : UInt32
  deriving DecidableEq, Repr

/-- Function indices to be placed in a table. -/
structure ElementSegment where
  table : UInt32
  offset : InitExpr
  functions : List UInt32
  deriving DecidableEq, Repr

/-- Bytes to be placed in a memory. -/
structure DataSegment where
  memory : UInt32
  offset : InitExpr
  bytes : List UInt8
  deriving DecidableEq, Repr

/-- A section that is kept as it is. -/
structure CustomSection where
  name : String
  payload : List UInt8
  deriving DecidableEq, Repr

structure Module where
  types : Array FuncType := #[]
  functions : Array Function := #[]
  tables : Array Storage := #[]
  memories : Array Storage := #[]
  globals : Array Global := #[]
  exports : List Export := []
  elements : List ElementSegment := []
  data : List DataSegment := []
  customSections : List CustomSection := []
  start : Option UInt32 := none
  deriving DecidableEq, Repr, Inhabited

namespace Module

/-- The signature of a function; `none` when its index or its type's index is out of range. -/
def funcType? (m : Module) (f : Nat) : Option FuncType :=
  match m.functions[f]? with
  | none => none
  | some function => m.types[function.type.toNat]?

/-- The body of a defined function. -/
def code? (m : Module) (f : Nat) : Option (Array Instr) :=
  m.functions[f]?.bind Function.code?

def hasInstruction (m : Module) (f i : Nat) : Bool :=
  match m.code? f with
  | none => false
  | some code => i < code.size

/-- The index under the first export of a name and kind. -/
def exported? (m : Module) (name : String) (kind : ExternalKind) : Option UInt32 :=
  (m.exports.find? fun e => e.kind = kind && e.name = name).map (·.index)

/-- The payload of the first custom section of a name. -/
def custom? (m : Module) (name : String) : Option (List UInt8) :=
  (m.customSections.find? (·.name = name)).map (·.payload)

/-- The function that a program starts at: the start function, else the one exported as
`_start`, else the one exported as `main`. -/
def entryPoint? (m : Module) : Option UInt32 :=
  m.start <|> m.exported? "_start" .function <|> m.exported? "main" .function

end Module

end WasmDebugger
