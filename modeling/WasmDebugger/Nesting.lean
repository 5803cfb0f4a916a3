import WasmDebugger.Instr

/-!
# Block nesting

A function body is a sequence of instructions in which `block`, `loop` and `if` are closed by an
`end`, an `if` may have one `else`, and a last `end` closes the body itself.

* `Nesting.scan` walks the body with the openers that wait for their `end`.
* `Nesting.resolve` gives each opener and each `else` the position of its `end`, and each `if`
  the position of its `else`, or says what is wrong (`NestingError`). It starts from the targets
  that the instructions have already: an `if` that names an arm keeps it, and gets no other.
-/

namespace WasmDebugger

inductive NestingError where
  | noFinalEnd
  | elseWithoutIf (position : Nat)
  | duplicateElse (position : Nat)
  | unexpectedEnd (position : Nat)
  | unterminated (opener : Nat)
  deriving DecidableEq, Repr

def NestingError.message : NestingError → String
  | .noFinalEnd => "function body does not end with 'end'"
  | .elseWithoutIf pc => "'else' without matching 'if' at #" ++ Numeral.decimal pc
  | .duplicateElse pc => "duplicate 'else' at #" ++ Numeral.decimal pc
  | .unexpectedEnd pc => "unexpected 'end' at #" ++ Numeral.decimal pc
  | .unterminated pc => "unterminated block opened at #" ++ Numeral.decimal pc

/-- Where an instruction's block ends, and where its other arm starts. -/
structure Targets where
  endAt : Option Nat := none
  elseAt : Option Nat := none
  deriving DecidableEq, Repr, Inhabited

def Instr.withTargets (t : Targets) : Instr → Instr
  | .block r _ => .block r t.endAt
  | .loop r _ => .loop r t.endAt
  | .ifThen r _ _ => .ifThen r t.endAt t.elseAt
  | .elseThen _ => .elseThen t.endAt
  | i => i

namespace Nesting

/-- The targets that an instruction names. Only an `if` has room for another arm. -/
def targetsOf : Instr → Targets
  | .block _ t | .loop _ t | .elseThen t => ⟨t, none⟩
  | .ifThen _ t arm => ⟨t, arm⟩
  | _ => {}

/-- An opener whose `end` has not come yet. -/
structure Opener where
  position : Nat
  isIf : Bool
  elseAt : Option Nat := none
  deriving DecidableEq, Repr

/-- The targets known once the `end` at `pc` closes an opener. The arm that the opener names goes on
there, whatever instruction it is; behind the body there is none. -/
def close (opener : Opener) (pc : Nat) (found : Array Targets) : Array Targets :=
  let found := found.setIfInBounds opener.position ⟨some pc, opener.elseAt⟩
  match opener.elseAt with
  | none => found
  | some arm => found.modify arm fun t => { t with endAt := some pc }

/-- Walks the instructions from position `pc` on, innermost opener first. -/
def scan (pc : Nat) (openers : List Opener) (found : Array Targets) :
    List Instr → Except NestingError (Array Targets)
  | [] =>
    match openers with
    | [] => .ok found
    | opener :: _ => .error (.unterminated opener.position)
  | .block _ _ :: rest => scan (pc + 1) (⟨pc, false, none⟩ :: openers) found rest
  | .loop _ _ :: rest => scan (pc + 1) (⟨pc, false, none⟩ :: openers) found rest
  | .ifThen _ _ arm :: rest => scan (pc + 1) (⟨pc, true, arm⟩ :: openers) found rest
  | .elseThen _ :: rest =>
    match openers with
    | ⟨_, false, _⟩ :: _ | [] => .error (.elseWithoutIf pc)
    | ⟨_, true, some _⟩ :: _ => .error (.duplicateElse pc)
    | ⟨opener, true, none⟩ :: outer => scan (pc + 1) (⟨opener, true, some pc⟩ :: outer) found rest
  | .blockEnd :: rest =>
    match openers with
    | [] => .error (.unexpectedEnd pc)
    | opener :: outer => scan (pc + 1) outer (close opener pc found) rest
  | _ :: rest => scan (pc + 1) openers found rest

/-- The body with all targets filled in. The `end` that closes the body belongs to no opener. -/
def resolve (code : List Instr) : Except NestingError (List Instr) :=
  match code.getLast? with
  | some .blockEnd =>
    match scan 0 [] (code.map targetsOf).toArray code.dropLast with
    | .error e => .error e
    | .ok found => .ok (code.mapIdx fun pc i => i.withTargets (found.getD pc {}))
  | _ => .error .noFinalEnd

end Nesting

end WasmDebugger
