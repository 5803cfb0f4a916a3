import WasmDebugger.Nesting

/-!
# Load errors

Why bytes are not a module, and where that was noticed.

* `LoadCause`: every cause, with its wording in `LoadCause.message`.
* `LoadError.text`: the cause after the offset of the byte at which reading stopped.
-/

namespace WasmDebugger

inductive LoadCause where
  /-- The bytes end inside a value. -/
  | endOfData
  | integerTooLong
  | integerTooLarge
  | lengthOutOfBounds
  | countTooLarge
  | magic
  | version
  | unknownSection (id : UInt8)
  | sectionOrder
  | sectionSize
  /-- Functions and bodies differ in number. -/
  | bodyCount
  | valueType
  | limitsFlags
  | limitsOrder
  | memoryTooLarge
  | tableType
  | mutability
  | constantRequired
  | constantEnd
  | functionType
  | unknownType (index : UInt32)
  | importKind
  | multipleMemories
  | exportKind
  | elementTable
  | dataMemory
  | tooManyLocals
  | bodyEnd
  | nesting (error : NestingError)
  | blockType
  | zeroByte
  | illegalOpcode (byte : UInt8)
  | unknownExport (name : String)
  | unknownStart
  | elementWithoutTable
  | unknownElement
  | dataWithoutMemory
  | nameSubsectionSize
  | cannotOpen (path : String)
  /-- A reason given by whoever reads. -/
  | stated (message : String)
  deriving DecidableEq, Repr

open Numeral in
def LoadCause.message : LoadCause → String
  | .endOfData => "unexpected end of data"
  | .integerTooLong => "integer representation too long"
  | .integerTooLarge => "integer too large"
  | .lengthOutOfBounds => "length out of bounds"
  | .countTooLarge => "vector length exceeds remaining data"
  | .magic => "magic header not detected"
  | .version => "unknown binary version"
  | .unknownSection id => "unknown section id " ++ decimal id.toNat
  | .sectionOrder => "section out of order or duplicated"
  | .sectionSize => "section size mismatch"
  | .bodyCount => "function and code section have inconsistent lengths"
  | .valueType => "invalid value type"
  | .limitsFlags => "invalid limits flags"
  | .limitsOrder => "size minimum must not be greater than maximum"
  | .memoryTooLarge => "memory size must be at most 65536 pages (4GiB)"
  | .tableType => "only funcref tables are supported"
  | .mutability => "invalid mutability"
  | .constantRequired => "constant expression required"
  | .constantEnd => "constant expression must end with 'end'"
  | .functionType => "malformed function type"
  | .unknownType index => "unknown type " ++ decimal index.toNat
  | .importKind => "malformed import kind"
  | .multipleMemories => "multiple memories"
  | .exportKind => "malformed export kind"
  | .elementTable => "only active element segments for table 0 are supported"
  | .dataMemory => "only active data segments for memory 0 are supported"
  | .tooManyLocals => "too many locals"
  | .bodyEnd => "function body must end with 'end'"
  | .nesting error => error.message
  | .blockType => "multi-value block types are not supported"
  | .zeroByte => "zero byte expected"
  | .illegalOpcode byte => "illegal opcode " ++ decimal byte.toNat
  | .unknownExport name => "export '" ++ name ++ "' refers to an unknown index"
  | .unknownStart => "unknown start function"
  | .elementWithoutTable => "element segment without a table"
  | .unknownElement => "element segment refers to unknown function"
  | .dataWithoutMemory => "data segment without a memory"
  | .nameSubsectionSize => "name subsection size mismatch"
  | .cannotOpen path => "cannot open '" ++ path ++ "'"
  | .stated message => message

structure LoadError where
  cause : LoadCause
  offset : Nat
  deriving DecidableEq, Repr

def LoadError.text (e : LoadError) : String :=
  "offset 0x" ++ Numeral.hex 0 e.offset ++ ": " ++ e.cause.message

end WasmDebugger
