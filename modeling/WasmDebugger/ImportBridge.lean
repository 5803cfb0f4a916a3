import WasmDebugger.Module

/-!
# Imported functions

A call to an imported function is answered outside the machine, by a bridge.

* `ImportCall`, `ImportResult`: what the host is shown and what it hands back.
* `Bridge.fulfill`: runs the handler for a call. A handler for the function's index goes before
  one for its name, and a time limit turns late answers and exceptions into failures.
-/

namespace WasmDebugger

open Numeral

/-- One call: arguments, and the globals and the first memory as they are. -/
structure ImportCall where
  function : Nat
  name : ImportName
  args : List Value
  globals : Array Value
  memory : ByteArray

structure ImportResult where
  returned : Option Value
  globals : Array Value
  memory : ByteArray

inductive Reply where
  | result (r : ImportResult)
  | failed (message : String)
  /-- The handler ended in an exception. -/
  | threw (message : String)

/-- A reply and the milliseconds that it took. -/
structure Response where
  reply : Reply
  elapsed : Nat

abbrev Handler := ImportCall → Response

/-- Handlers by function index and by name, the last one registered first. -/
structure Handlers where
  byIndex : List (UInt32 × Handler) := []
  byName : List (String × Handler) := []

namespace Handlers

/-- Handlers are looked up under the two parts of a name with a point between them. -/
def key (name : ImportName) : String := name.module ++ "." ++ name.field

def addIndex (h : Handlers) (f : UInt32) (handler : Handler) : Handlers :=
  { h with byIndex := (f, handler) :: h.byIndex }

def addName (h : Handlers) (name : ImportName) (handler : Handler) : Handlers :=
  { h with byName := (key name, handler) :: h.byName }

def find? (h : Handlers) (call : ImportCall) : Option Handler :=
  match (h.byIndex.find? fun e => e.1.toNat = call.function) with
  | some e => some e.2
  | none => h.byName.lookup (key call.name)

end Handlers

inductive Bridge where
  /-- Refuses every call. -/
  | unavailable
  | host (handlers : Handlers)
  /-- Gives another bridge so many milliseconds. -/
  | timed (inner : Bridge) (limit : Nat)

namespace Bridge

def noHandler (name : ImportName) : Reply :=
  .failed ("no host handler for import '" ++ Handlers.key name ++ "'")

def respond : Bridge → ImportCall → Response
  | .unavailable, call => ⟨noHandler call.name, 0⟩
  | .host handlers, call =>
    match handlers.find? call with
    | some handler => handler call
    | none => ⟨noHandler call.name, 0⟩
  | .timed inner limit, call =>
    let response := inner.respond call
    if limit < response.elapsed then
      ⟨.failed ("import call timed out after " ++ decimal limit ++ " ms"), limit⟩
    else
      match response.reply with
      | .threw message => ⟨.failed ("import handler threw: " ++ message), response.elapsed⟩
      | _ => response

def fulfill (b : Bridge) (call : ImportCall) : Reply := (b.respond call).reply

end Bridge

end WasmDebugger
