import WasmDebugger.Session
import WasmDebugger.Value.Display

/-!
# Listings

The lines in which a session's module, execution and memory are shown.
-/

namespace WasmDebugger

open Numeral

def FuncType.text (t : FuncType) : String :=
  let names (types : List ValueType) := ", ".intercalate (types.map ValueType.name)
  "(" ++ names t.params ++ ") -> " ++ if t.results.isEmpty then "()" else names t.results

/-- Characters that are shown as they are; the others are shown as a point. -/
def isPrintable (b : UInt8) : Bool := 0x20 ≤ b && b ≤ 0x7E

namespace Listing

/-- Bytes in a row. -/
def rowWidth : Nat := 16

/-- A row of memory: its address, the bytes in hexadecimal, and the same as characters. -/
def memoryRow (address : UInt64) (bytes : List UInt8) : String :=
  let cells := bytes.map fun b => " " ++ hex 2 b.toNat
  let missing := List.replicate (rowWidth - bytes.length) "   "
  let shown := bytes.map fun b => if isPrintable b then Char.ofNat b.toNat else '.'
  "0x" ++ hex 8 address.toNat ++ ":" ++ String.join (cells ++ missing) ++ "  " ++
    String.ofList shown ++ "\n"

/-- At most `n` rows. -/
def memoryRows (address : UInt64) (bytes : List UInt8) : Nat → List String
  | 0 => []
  | n + 1 =>
    if bytes.isEmpty then []
    else
      memoryRow address (bytes.take rowWidth) ::
        memoryRows (address + rowWidth.toUInt64) (bytes.drop rowWidth) n

def memory (address : UInt64) (bytes : List UInt8) : String :=
  if bytes.isEmpty then "<no bytes in range>\n"
  else String.join (memoryRows address bytes bytes.length)

/-- Lines of numbered values. -/
def values (label : String) (vs : List Value) : String :=
  String.join (vs.zipIdx.map fun (v, i) =>
    label ++ "[" ++ decimal i ++ "] = " ++ v.describe ++ "\n")

/-- The operand stack from the top. -/
def operands (vs : List Value) : String :=
  if vs.isEmpty then "<empty>\n"
  else String.join (vs.reverse.zipIdx.map fun (v, i) =>
    "[" ++ decimal i ++ "] " ++ v.describe ++ "\n")

def breakpoints (entries : List (UInt32 × Breakpoint)) : String :=
  if entries.isEmpty then "no breakpoints\n"
  else String.join (entries.map fun (i, b) => decimal i.toNat ++ ": " ++ b.text ++ "\n")

/-- The name of a function in angle brackets, behind a space. -/
def nameTag (name? : Option String) : String :=
  match name? with
  | some name => " <" ++ name ++ ">"
  | none => ""

def position (s : Session) (p : Position) : String :=
  p.text ++ nameTag (s.functionName? p.function.toUInt32)

def backtrace (s : Session) (positions : List Position) : String :=
  String.join (positions.zipIdx.map fun (p, i) => "#" ++ decimal i ++ "  " ++ position s p ++ "\n")

/-- The locals of a frame under their names. -/
def locals (s : Session) (f : Frame) : String :=
  String.join (f.locals.toList.zipIdx.map fun (v, i) =>
    let name := match s.localName? f.function.toUInt32 i.toUInt32 with
      | some name => " " ++ name
      | none => ""
    "local[" ++ decimal i ++ "]" ++ name ++ " = " ++ v.describe ++ "\n")

/-- Name and signature of a function, as far as it has them. -/
def heading (l : Loaded) (f : Nat) : String :=
  let signature := match l.module.funcType? f with
    | some type => " " ++ type.text
    | none => ""
  nameTag (l.names.function? f.toUInt32) ++ signature

def importText (name : ImportName) : String := name.module ++ "." ++ name.field

def functionLine (l : Loaded) (function : Function) (f : Nat) : String :=
  let origin := match function with
    | .imported _ name => " import " ++ importText name
    | .defined _ _ code => " [" ++ decimal code.size ++ " instructions]"
  "f" ++ decimal f ++ heading l f ++ origin ++ "\n"

def functions (l : Loaded) : String :=
  String.join (l.module.functions.toList.zipIdx.map fun (function, f) => functionLine l function f)

/-- A text moved to the right end of a field. -/
def alignRight (width : Nat) (text : String) : String :=
  String.ofList (List.replicate (width - text.length) ' ') ++ text

/-- A function's instructions, with a mark at the current one. -/
def disassembly (l : Loaded) (current : Option Position) (function : Function) (f : Nat) : String :=
  let origin := match function with
    | .imported _ name => " imported from " ++ importText name
    | .defined _ _ _ => ""
  let line (i : Instr) (index : Nat) : String :=
    (if current = some ⟨f, index⟩ then "=> " else "   ") ++ alignRight 4 (decimal index) ++ "  " ++
      i.text ++ "\n"
  let code := (function.code?.getD #[]).toList
  "function " ++ decimal f ++ heading l f ++ origin ++ "\n" ++
    String.join (code.zipIdx.map fun (i, index) => line i index)

end Listing

end WasmDebugger
