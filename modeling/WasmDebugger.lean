import WasmDebugger.Binary.Decoder
import WasmDebugger.Binary.Error
import WasmDebugger.Binary.Instr
import WasmDebugger.Binary.Module
import WasmDebugger.Binary.Reader
import WasmDebugger.Binary.Section
import WasmDebugger.Breakpoints
import WasmDebugger.Config
import WasmDebugger.DebugNames
import WasmDebugger.Execution
import WasmDebugger.Ieee.Arithmetic
import WasmDebugger.Ieee.Decimal
import WasmDebugger.Ieee.Format
import WasmDebugger.Ieee.Literal
import WasmDebugger.ImportBridge
import WasmDebugger.Instr
import WasmDebugger.Machine
import WasmDebugger.Machine.Control
import WasmDebugger.Machine.Instantiate
import WasmDebugger.Machine.Numeric
import WasmDebugger.Machine.Step
import WasmDebugger.Main
import WasmDebugger.Memory
import WasmDebugger.Module
import WasmDebugger.Module.Build
import WasmDebugger.Nesting
import WasmDebugger.Notice
import WasmDebugger.Numeral
import WasmDebugger.Octets
import WasmDebugger.Opcode
import WasmDebugger.OperandStack
import WasmDebugger.Options
import WasmDebugger.Program
import WasmDebugger.Proofs.Accesses
import WasmDebugger.Proofs.Backtrace
import WasmDebugger.Proofs.Bodies
import WasmDebugger.Proofs.BoundedReading
import WasmDebugger.Proofs.Brackets
import WasmDebugger.Proofs.BreakpointHistory
import WasmDebugger.Proofs.Building
import WasmDebugger.Proofs.ByteAccess
import WasmDebugger.Proofs.Coherence
import WasmDebugger.Proofs.Constants
import WasmDebugger.Proofs.CustomSections
import WasmDebugger.Proofs.Decoding
import WasmDebugger.Proofs.Effect
import WasmDebugger.Proofs.Encoding
import WasmDebugger.Proofs.Faults
import WasmDebugger.Proofs.FinishedCalls
import WasmDebugger.Proofs.ForwardPass
import WasmDebugger.Proofs.FrameChain
import WasmDebugger.Proofs.FreshRuns
import WasmDebugger.Proofs.Growth
import WasmDebugger.Proofs.Handlers
import WasmDebugger.Proofs.HostAnswers
import WasmDebugger.Proofs.HostCalls
import WasmDebugger.Proofs.HostFailure
import WasmDebugger.Proofs.Instantiation
import WasmDebugger.Proofs.IntegerLiterals
import WasmDebugger.Proofs.IntegerRules
import WasmDebugger.Proofs.Isolation
import WasmDebugger.Proofs.Labels
import WasmDebugger.Proofs.Layout
import WasmDebugger.Proofs.LoadedPaths
import WasmDebugger.Proofs.Locality
import WasmDebugger.Proofs.Matching
import WasmDebugger.Proofs.NameSection
import WasmDebugger.Proofs.Nesting
import WasmDebugger.Proofs.OperandStack
import WasmDebugger.Proofs.Overrides
import WasmDebugger.Proofs.PaidEntries
import WasmDebugger.Proofs.Reachable
import WasmDebugger.Proofs.ReadBack
import WasmDebugger.Proofs.RefusedCalls
import WasmDebugger.Proofs.Registry
import WasmDebugger.Proofs.Requests
import WasmDebugger.Proofs.RoundTrip
import WasmDebugger.Proofs.ShellLines
import WasmDebugger.Proofs.Spelling
import WasmDebugger.Proofs.Statuses
import WasmDebugger.Proofs.StickyLoops
import WasmDebugger.Proofs.StickyReading
import WasmDebugger.Proofs.Stopping
import WasmDebugger.Proofs.Stores
import WasmDebugger.Proofs.Transparency
import WasmDebugger.Proofs.VariableLength
import WasmDebugger.Proofs.WatchedRanges
import WasmDebugger.Proofs.Watchpoints
import WasmDebugger.Proofs.WellFormed
import WasmDebugger.Proofs.Writes
import WasmDebugger.Session
import WasmDebugger.Shell
import WasmDebugger.Shell.Argument
import WasmDebugger.Shell.Command
import WasmDebugger.Shell.Listing
import WasmDebugger.Trap
import WasmDebugger.Value
import WasmDebugger.Value.Display
import WasmDebugger.Value.Literal
import WasmDebugger.Word
