import WasmDebugger.Octets

/-!
# Command lines

A line is a command's name and its arguments, separated by white space.

* `Line.parse`: what a line asks for. Blank lines and comments ask for nothing.
* `Command.table`: each command with its names and its line in the list of commands
  (`Command.helpText`).
-/

namespace WasmDebugger

/-! ## Words and lines -/

/-- The words of a text that goes on behind the letters of a word, which come last first. -/
def wordsFrom (letters : List Char) : List Char → List String
  | [] => if letters.isEmpty then [] else [String.ofList letters.reverse]
  | c :: rest =>
    if Octets.isSpace c then
      if letters.isEmpty then wordsFrom [] rest
      else String.ofList letters.reverse :: wordsFrom [] rest
    else wordsFrom (c :: letters) rest

/-- The longest parts of a text without white space. -/
def wordsOf (text : String) : List String := wordsFrom [] text.toList

/-- The lines of a text that goes on behind the characters of a line, which come last first. -/
def linesFrom (line : List Char) : List Char → List String
  | [] => if line.isEmpty then [] else [String.ofList line.reverse]
  | c :: rest =>
    if c = '\n' then String.ofList line.reverse :: linesFrom [] rest else linesFrom (c :: line) rest

/-- The lines of a text. What stands behind the last line feed is one if it is not empty. -/
def linesOf (text : String) : List String := linesFrom [] text.toList

/-! ## Commands -/

inductive Command where
  | load
  | start
  | run
  | step
  | next
  | finish
  | proceed
  | call
  | reset
  | backtrace
  | locals
  | globals
  | stack
  | memory
  | breakAt
  | watch
  | delete
  | clear
  | info
  | disassemble
  | help
  | quit
  deriving DecidableEq, Repr

/-- How a command is written, and what the list of commands says of it. -/
structure CommandEntry where
  command : Command
  name : String
  short? : Option String
  synopsis : String
  summary : String
  deriving Repr

namespace Command

def watchSynopsis : String := "watch global IDX [r|w|rw] | watch mem ADDR LEN [r|w|rw]"

def table : List CommandEntry :=
  [⟨.load, "load", none, "load PATH", "load a WebAssembly binary"⟩,
   ⟨.start, "start", none, "start", "instantiate and run the entry point"⟩,
   ⟨.run, "run", none, "run", "like start, but require an entry point"⟩,
   ⟨.step, "step", some "s", "step", "execute one instruction"⟩,
   ⟨.next, "next", some "n", "next", "step over calls"⟩,
   ⟨.finish, "finish", none, "finish", "run until the current function returns"⟩,
   ⟨.proceed, "continue", some "c", "continue", "run until the next trap"⟩,
   ⟨.call, "call", none, "call FUNC [ARGS...]", "call a function by index or name"⟩,
   ⟨.reset, "reset", none, "reset", "discard the running instance"⟩,
   ⟨.backtrace, "bt", some "backtrace", "bt", "print the call stack"⟩,
   ⟨.locals, "locals", none, "locals [DEPTH]", "print locals of a frame (-1 = current)"⟩,
   ⟨.globals, "globals", none, "globals", "print all globals"⟩,
   ⟨.stack, "stack", none, "stack", "print the value stack"⟩,
   ⟨.memory, "memory", some "x", "memory ADDR [LEN]", "dump linear memory"⟩,
   ⟨.breakAt, "break", some "b", "break FUNC INSTR", "set a code breakpoint"⟩,
   ⟨.watch, "watch", none, watchSynopsis, "set a watchpoint"⟩,
   ⟨.delete, "delete", some "d", "delete IDX", "delete a breakpoint"⟩,
   ⟨.clear, "clear", none, "clear", "delete all breakpoints"⟩,
   ⟨.info, "info", none, "info breakpoints|functions", "list breakpoints or functions"⟩,
   ⟨.disassemble, "disas", none, "disas [FUNC]", "disassemble a function"⟩,
   ⟨.help, "help", some "h", "help", "show this list"⟩,
   ⟨.quit, "quit", some "q", "quit", "leave wasmdbg"⟩]

/-- Another word that ends the session, which the list of commands leaves out. -/
def exitWord : String := "exit"

/-- The command that a word names. -/
def ofWord? (word : String) : Option Command :=
  match table.find? fun e => word = e.name || e.short? = some word with
  | some e => some e.command
  | none => if word = exitWord then some .quit else none

/-- The column in which summaries start, two more than this. -/
def synopsisWidth : Nat := 28

def entryHelp (e : CommandEntry) : String :=
  let padding := String.ofList (List.replicate (synopsisWidth - e.synopsis.length) ' ')
  let short := match e.short? with
    | some short => " (alias: " ++ short ++ ")"
    | none => ""
  "  " ++ e.synopsis ++ padding ++ e.summary ++ short ++ "\n"

def helpText : String := String.join (table.map entryHelp)

end Command

/-! ## What a line asks for -/

inductive Line where
  | nothing
  | command (command : Command) (args : List String)
  | unknown (word : String)
  deriving DecidableEq, Repr

/-- A comment starts with the sign for it. -/
def isComment (word : String) : Bool := word.toList.head? = some '#'

def Line.parse (text : String) : Line :=
  match wordsOf text with
  | [] => .nothing
  | word :: args =>
    if isComment word then .nothing
    else
      match Command.ofWord? word with
      | some c => .command c args
      | none => .unknown word

end WasmDebugger
