import WasmDebugger.Shell.Command
import WasmDebugger.Shell.Argument
import WasmDebugger.Shell.Listing
import WasmDebugger.Value.Literal

/-!
# The command shell

A shell carries out command lines on a session. Commands only put into words: what they ask for is an
operation of the session, and what they print is a listing of it.

* `Shell.execute`: one line. A command that is refused says so and counts as an error.
* `Shell.run`: lines up to the one that ends the session.
* `Line.path?`: the file that a line asks for, so that its contents can be fetched beforehand.
-/

namespace WasmDebugger

open Numeral

/-- What a line comes to. -/
structure Reaction where
  session : Session
  out : String := ""
  err : String := ""
  notices : List Notice := []
  failed : Bool := false
  quits : Bool := false
  /-- The words of an exception that the host ended in. -/
  exception : Option String := none

namespace Reaction

def fail (s : Session) (message : String) : Reaction where
  session := s
  out := "error: " ++ message ++ "\n"
  failed := true

/-- Prints the answer of an inspection. -/
def inspect {α : Type} (s : Session) (answer : Except SessionError α) (text : α → String) :
    Reaction :=
  match answer with
  | .error e => fail s e.text
  | .ok a => { session := s, out := text a }

/-- Prints the answer of an operation. -/
def report {α : Type} (r : Report SessionError α) (text : α → String) : Reaction :=
  { inspect r.session r.answer text with notices := r.notices }

/-! ## Stops -/

/-- Where the session is, if it is inside a function. -/
def location (s : Session) (label : String) (describe : Position → String) : String :=
  match s.active? with
  | some m => label ++ describe m.ip
  | none => ""

def results (s : Session) : String :=
  match s.operands with
  | .ok vs => String.join (vs.map fun v => "result: " ++ v.describe ++ "\n")
  | .error _ => ""

/-- Tells where execution has stopped and why; a finished one also tells its results. -/
def stopped (s : Session) (trap : Trap) : Reaction :=
  let out := "stopped: " ++ trap.text ++ location s " at " (Listing.position s) ++ "\n"
  match trap with
  | .breakpoint index =>
    let alert := "[BREAK] breakpoint " ++ decimal index.toNat
    { session := s, out := out, err := alert ++ location s " at " Position.text ++ "\n" }
  | .watchpoint index =>
    let alert := "[WATCH] watchpoint " ++ decimal index.toNat
    { session := s, out := out, err := alert ++ location s " before " Position.text ++ "\n" }
  | .finished => { session := s, out := out ++ results s }
  | .fault _ => { session := s, out := out }

/-- The instruction that is next. -/
def nextInstr (s : Session) : String :=
  match s.live?, s.active? with
  | some (l, _), some m =>
    match (l.module.code? m.ip.function).bind fun code => code[m.ip.instr]? with
    | some i => "at " ++ Listing.position s m.ip ++ ": " ++ i.text ++ "\n"
    | none => ""
  | _, _ => ""

/-- What running came to; `idle` is printed when it has stopped without a trap. -/
def ran (r : Report SessionError Outcome) (idle : Session → String) : Reaction :=
  match r.answer with
  | .error e => { fail r.session e.text with notices := r.notices }
  | .ok (.stopped (some trap)) => { stopped r.session trap with notices := r.notices }
  | .ok (.stopped none) => { session := r.session, out := idle r.session, notices := r.notices }
  | .ok (.threw message) =>
    { session := r.session, notices := r.notices, exception := some message }
  | .ok .unfinished => { session := r.session, notices := r.notices }

end Reaction

/-- A session and how many commands were refused so far. -/
structure Shell where
  session : Session := {}
  errors : Nat := 0

namespace Shell

/-! ## Commands -/

/-- The path that the arguments of `load` spell, with single spaces between them. -/
def loadPath? (args : List String) : Option String :=
  if args.isEmpty then none else some (" ".intercalate args)

/-- A function by its index, its debug name or the name of its export. -/
def function? (s : Session) (word : String) : Option UInt32 :=
  match Argument.word? word with
  | some f => some f
  | none =>
    s.loaded.bind fun l =>
      let named := (List.range l.module.functions.size).find? fun f =>
        l.names.function? f.toUInt32 = some word
      match named with
      | some f => some f.toUInt32
      | none => l.module.exported? word .function

def load (files : Files) (args : List String) (s : Session) : Reaction :=
  match loadPath? args with
  | none => .fail s "usage: load PATH"
  | some path =>
    let r := s.load files path
    match r.answer with
    | .error e => .fail r.session e.text
    | .ok () => { session := r.session, out := "loaded " ++ path ++ "\n", notices := r.notices }

/-- Reads as many arguments as there are parameters, up to the first that is not of its type. -/
def parseArgs : List ValueType → List String → Except String (List Value)
  | t :: types, text :: texts =>
    match Value.parse? t text with
    | none => .error ("cannot parse '" ++ text ++ "' as " ++ t.name)
    | some v => (parseArgs types texts).map (v :: ·)
  | _, _ => .ok []

/-- Without a signature the session says what is wrong with the call. -/
def call (fuel : Nat) (args : List String) (s : Session) : Reaction :=
  match args with
  | [] => .fail s "usage: call FUNC [ARGS...]"
  | word :: texts =>
    match function? s word with
    | none => .fail s ("unknown function '" ++ word ++ "'")
    | some f =>
      let params := match s.loaded.bind fun l => l.module.funcType? f.toNat with
        | some type => some type.params
        | none => none
      match params with
      | none => .ran (s.call fuel f.toNat []) fun _ => ""
      | some params =>
        if texts.length ≠ params.length then .fail s SessionError.arguments.text
        else
          match parseArgs params texts with
          | .error message => .fail s message
          | .ok values => .ran (s.call fuel f.toNat values) fun _ => ""

def locals (args : List String) (s : Session) : Reaction :=
  let depth? := match args with
    | [] => some (-1)
    | word :: _ => Argument.signed? word
  match depth? with
  | none => .fail s ("invalid frame depth '" ++ args.headD "" ++ "'")
  | some depth => .inspect s (s.frame depth) (Listing.locals s)

/-- Bytes shown when no length is given. -/
def defaultLength : UInt64 := 64

def memory (args : List String) (s : Session) : Reaction :=
  let range? := match args with
    | [address] => (Argument.unsigned? address).map fun address => (address, defaultLength)
    | [address, length] => do
      let address ← Argument.unsigned? address
      let length ← Argument.unsigned? length
      some (address, length)
    | _ => none
  match range? with
  | none => .fail s "usage: memory ADDR [LEN]"
  | some (address, length) =>
    .inspect s (s.readMemory address.toNat length.toNat) (Listing.memory address)

def breakAt (args : List String) (s : Session) : Reaction :=
  match args with
  | [word, index] =>
    match function? s word, Argument.word? index with
    | some f, some i =>
      let p : Position := ⟨f.toNat, i.toNat⟩
      .report (s.addBreakpoint (.code p)) fun index =>
        "breakpoint " ++ decimal index.toNat ++ " at " ++ Listing.position s p ++ "\n"
    | _, _ => .fail s SessionError.breakpointPosition.text
  | _ => .fail s "usage: break FUNC INSTR"

/-- Adds a watchpoint. It reacts to writes when no trigger is given. -/
def addWatch (make : Trigger → Breakpoint) (trigger : Option String) (s : Session) : Reaction :=
  let trigger? := match trigger with
    | none => some .write
    | some word => Argument.trigger? word
  match trigger? with
  | none => .fail s ("invalid trigger '" ++ trigger.getD "" ++ "'; use r, w or rw")
  | some t =>
    .report (s.addBreakpoint (make t)) fun index =>
      "watchpoint " ++ decimal index.toNat ++ ": " ++ (make t).text ++ "\n"

def watch (args : List String) (s : Session) : Reaction :=
  let usage := "usage: " ++ Command.watchSynopsis
  let watchGlobal (index : String) (trigger : Option String) : Reaction :=
    match Argument.word? index with
    | none => .fail s SessionError.watchpointGlobal.text
    | some g => addWatch (.global · g) trigger s
  let watchMemory (address length : String) (trigger : Option String) : Reaction :=
    match Argument.word? address, Argument.word? length with
    | some a, some n => addWatch (.memory · a n) trigger s
    | _, _ => .fail s usage
  match args with
  | ["global", index] => watchGlobal index none
  | ["global", index, trigger] => watchGlobal index (some trigger)
  | ["mem", address, length] => watchMemory address length none
  | ["mem", address, length, trigger] => watchMemory address length (some trigger)
  | _ => .fail s usage

def delete (args : List String) (s : Session) : Reaction :=
  let index? := match args with
    | [word] => Argument.word? word
    | _ => none
  match index? with
  | none => .fail s "usage: delete IDX"
  | some index =>
    .report (s.deleteBreakpoint index) fun found =>
      (if found then "deleted " else "no breakpoint ") ++ decimal index.toNat ++ "\n"

def info (args : List String) (s : Session) : Reaction :=
  match args with
  | ["breakpoints"] | ["b"] => .inspect s s.breakpoints Listing.breakpoints
  | ["functions"] | ["f"] =>
    match s.loaded with
    | none => .fail s SessionError.noFile.text
    | some l => { session := s, out := Listing.functions l }
  | _ => .fail s "usage: info breakpoints|functions"

/-- The function that is asked for, or else the current one, or else the first. -/
def disassemble (args : List String) (s : Session) : Reaction :=
  let current := s.active?.map (·.ip)
  let index? := match args with
    | [] => some ((current.map (·.function)).getD 0)
    | word :: _ => (function? s word).map (·.toNat)
  match index? with
  | none => .fail s ("unknown function '" ++ args.headD "" ++ "'")
  | some f =>
    match s.loaded with
    | none => .fail s SessionError.noFile.text
    | some l =>
      match l.module.functions[f]? with
      | none => .fail s SessionError.functionIndex.text
      | some function => { session := s, out := Listing.disassembly l current function f }

def noEntryText : String := "no entry point; use 'call' to run a function\n"

def perform (fuel : Nat) (files : Files) (args : List String) (s : Session) : Command → Reaction
  | .load => load files args s
  | .start => .ran (s.start fuel) fun _ => noEntryText
  | .run => .ran (s.run fuel) fun _ => ""
  | .step => .ran (s.resume fuel .step) Reaction.nextInstr
  | .next => .ran (s.resume fuel .stepOver) Reaction.nextInstr
  | .finish => .ran (s.resume fuel .stepOut) Reaction.nextInstr
  | .proceed => .ran (s.resume fuel .proceed) fun _ => ""
  | .call => call fuel args s
  | .reset => { session := s.reset, out := "instance discarded\n" }
  | .backtrace => .inspect s s.backtrace (Listing.backtrace s)
  | .locals => locals args s
  | .globals => .inspect s s.globals (Listing.values "global")
  | .stack => .inspect s s.operands Listing.operands
  | .memory => memory args s
  | .breakAt => breakAt args s
  | .watch => watch args s
  | .delete => delete args s
  | .clear => .report s.clearBreakpoints fun _ => "all breakpoints deleted\n"
  | .info => info args s
  | .disassemble => disassemble args s
  | .help => { session := s, out := Command.helpText }
  | .quit => { session := s, quits := true }

/-! ## Lines -/

def react (fuel : Nat) (files : Files) (s : Session) : Line → Reaction
  | .nothing => { session := s }
  | .unknown word => .fail s ("unknown command '" ++ word ++ "'; try 'help'")
  | .command c args => perform fuel files args s c

/-- Carries out a line. -/
def execute (fuel : Nat) (files : Files) (line : String) (sh : Shell) : Shell × Reaction :=
  let r := react fuel files sh.session (Line.parse line)
  (⟨r.session, if r.failed then sh.errors + 1 else sh.errors⟩, r)

/-- Carries out lines until one ends the session. -/
def run (fuel : Nat) (files : Files) (sh : Shell) : List String → Shell × List Reaction
  | [] => (sh, [])
  | line :: rest =>
    let (sh, r) := sh.execute fuel files line
    if r.quits || r.exception.isSome then (sh, [r])
    else
      let (sh, rs) := run fuel files sh rest
      (sh, r :: rs)

def prompt : String := "(wasmdbg) "

/-- What is printed for lines that have been carried out. With `prompting` each line is asked for,
and so is the one that did not come. -/
def transcript (prompting : Bool) (reactions : List Reaction) : String :=
  if prompting then
    let last := if reactions.any (·.quits) then "" else prompt
    String.join (reactions.map fun r => prompt ++ r.out) ++ last
  else String.join (reactions.map (·.out))

end Shell

def Line.path? : Line → Option String
  | .command .load args => Shell.loadPath? args
  | _ => none

end WasmDebugger
