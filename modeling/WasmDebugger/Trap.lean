import WasmDebugger.Word
import WasmDebugger.Module

/-!
# Traps

Why execution stops.

* `Fault`: an instruction that cannot be carried out. `Fault.refusedImport` carries what the host
  and its answer were refused for (`Refusal`).
* `Trap`: a fault, a breakpoint or watchpoint, or the end of the outermost function.
-/

namespace WasmDebugger

open Numeral

/-- Why an imported function gave no result that could be used. -/
inductive RefusalCause where
  /-- The host's own words. -/
  | host (message : String)
  | multipleResults
  | resultMissing
  | resultType
  | globalCount
  | globalType (index : Nat)
  deriving DecidableEq, Repr

def RefusalCause.message : RefusalCause → String
  | .host message => message
  | .multipleResults => "multi-value results are not supported"
  | .resultMissing => "return value does not match the import's signature"
  | .resultType => "return value has the wrong type"
  | .globalCount => "returned globals do not match the module's globals"
  | .globalType index => "returned global " ++ decimal index ++ " has the wrong type"

structure Refusal where
  function : Nat
  name : ImportName
  cause : RefusalCause
  deriving DecidableEq, Repr

/-- The line that reports a refusal. -/
def Refusal.text (r : Refusal) : String :=
  "[IMPORT] " ++ r.name.module ++ "." ++ r.name.field ++ " (function " ++ decimal r.function ++
    "): " ++ r.cause.message ++ "\n"

inductive Fault where
  | divisionByZero
  | signedOverflow
  | memoryOutOfBounds
  | refusedImport (refusal : Refusal)
  | noMemory
  | unreachable
  | invalidConversion
  | undefinedElement
  | indirectCallType
  | callStackExhausted
  | valueStackExhausted
  | typeMismatch
  deriving DecidableEq, Repr

def Fault.ofArithmetic : ArithmeticError → Fault
  | .divisionByZero => .divisionByZero
  | .signedOverflow => .signedOverflow
  | .invalidConversion => .invalidConversion

def Fault.text : Fault → String
  | .divisionByZero => "Division by zero"
  | .signedOverflow => "Signed integer overflow"
  | .memoryOutOfBounds => "Out of bounds memory access"
  | .refusedImport r => "Unsupported call to imported function " ++ decimal r.function
  | .noMemory => "No memory present"
  | .unreachable => "Reached unreachable instruction"
  | .invalidConversion => "Invalid conversion to integer"
  | .undefinedElement => "Undefined table element"
  | .indirectCallType => "Indirect call type mismatch"
  | .callStackExhausted => "Call stack exhausted"
  | .valueStackExhausted => "Value stack exhausted"
  | .typeMismatch => "Operand type mismatch"

/-- One word for a fault, for tools that read the answers. -/
def Fault.label : Fault → String
  | .divisionByZero => "DivisionByZero"
  | .signedOverflow => "SignedIntegerOverflow"
  | .memoryOutOfBounds => "MemoryOutOfBounds"
  | .refusedImport _ => "UnsupportedImportCall"
  | .noMemory => "NoMemory"
  | .unreachable => "Unreachable"
  | .invalidConversion => "InvalidConversionToInt"
  | .undefinedElement => "UndefinedTableElement"
  | .indirectCallType => "IndirectCallTypeMismatch"
  | .callStackExhausted => "CallStackExhausted"
  | .valueStackExhausted => "ValueStackExhausted"
  | .typeMismatch => "TypeMismatch"

inductive Trap where
  /-- The outermost function has returned. -/
  | finished
  | breakpoint (index : UInt32)
  | watchpoint (index : UInt32)
  | fault (fault : Fault)
  deriving DecidableEq, Repr

namespace Trap

def isFault : Trap → Bool
  | .fault _ => true
  | _ => false

def text : Trap → String
  | .finished => "Execution finished"
  | .breakpoint index => "Reached breakpoint " ++ decimal index.toNat
  | .watchpoint index => "Reached watchpoint " ++ decimal index.toNat
  | .fault f => f.text

def label : Trap → String
  | .finished => "ExecutionFinished"
  | .breakpoint _ => "BreakpointReached"
  | .watchpoint _ => "WatchpointReached"
  | .fault f => f.label

end Trap

end WasmDebugger
