import WasmDebugger.Machine

/-!
# Configuration

What a session is set up with: the limits of the machine, tracing, the time that the host has to
answer a call, and the bridge to the host.

* `Config.applyEnvironment`: overrides from variables. A text that is not understood leaves its
  setting as it is.
* `Config.makeBridge`: the bridge that calls go through.
-/

namespace WasmDebugger

open Numeral

structure Config where
  limits : Limitation := {}
  tracing : Bool := false
  /-- Milliseconds for a call to the host; there is no limit unless it is positive. -/
  importTimeout : Int := 30000
  bridge : Option Bridge := none

namespace Config

/-! ## Texts of settings -/

/-- The largest number that fits a setting. -/
def maxSetting : Nat := UInt32.size - 1

/-- Milliseconds in decimal digits. -/
def parseTimeout? (text : String) : Option Nat :=
  match text.toList with
  | [] => none
  | c :: rest =>
    if c.isDigit then
      match leading? .decimal (c :: rest) with
      | none => none
      | some n =>
        if isEnd n.rest && n.toUnsigned.toNat ≤ maxSetting then some n.toUnsigned.toNat else none
    else none

/-- A call depth. White space and a sign may stand in front, and a minus negates modulo `2 ^ 64`. -/
def parseDepth? (text : String) : Option Nat :=
  match leading? .decimal text.toList with
  | none => none
  | some n =>
    let depth := n.toUnsigned.toNat
    if isEnd n.rest && 0 < depth && depth ≤ maxSetting then some depth else none

def parseTracing? (text : String) : Option Bool :=
  match text.toLower with
  | "0" | "false" | "off" => some false
  | "1" | "true" | "on" => some true
  | _ => none

/-! ## Environment -/

def traceVariable : String := "WASMDBG_TRACE"
def depthVariable : String := "WASMDBG_MAX_CALL_DEPTH"
def timeoutVariable : String := "WASMDBG_IMPORT_TIMEOUT_MS"

def setDepth (c : Config) (depth : Nat) : Config :=
  { c with limits := { c.limits with maxCallDepth := depth } }

/-- The configuration under the variables that are set. -/
def applyEnvironment (c : Config) (env? : String → Option String) : Config :=
  let c := match (env? traceVariable).bind parseTracing? with
    | some tracing => { c with tracing := tracing }
    | none => c
  let c := match (env? depthVariable).bind parseDepth? with
    | some depth => c.setDepth depth
    | none => c
  match (env? timeoutVariable).bind parseTimeout? with
  | some timeout => { c with importTimeout := timeout }
  | none => c

/-! ## The bridge -/

/-- A bridge that refuses every call needs no time limit. -/
def makeBridge (c : Config) : Bridge :=
  match c.bridge with
  | none => .unavailable
  | some .unavailable => .unavailable
  | some bridge => if c.importTimeout ≤ 0 then bridge else .timed bridge c.importTimeout.toNat

end Config

end WasmDebugger
