import Relabel.CommandLine.Switch

/-!
# The parts of a command line

A line has a part for each command on it. A part is read word by word; what a word has begun is
settled once the next word, or the end of the line, shows that it is complete.

* `Refusal`: why a line is not carried out.
* `Part.take`: one word.
* `Part.readAll`: the parts of a line.
-/

namespace Relabel.CommandLine

/-- Why a line is not carried out. -/
inductive Refusal where
  | unknownArgument
  /-- A value is missing, or is empty where it must not be. -/
  | invalidValue
  /-- A switch is given twice. -/
  | argumentConflict
  /-- A value is given to a switch that takes none. -/
  | tooManyValues
  | unknownCommand
  | missingCommand
  | missingArgument
  /-- The user asks for help. -/
  | help
  /-- The user asks for the version. -/
  | version
  deriving DecidableEq, Repr

/-- What has been begun and is not settled. -/
inductive Pending where
  | nothing
  /-- A switch whose value is due or has just been read. -/
  | value (s : Switch) (text : Option String)
  | operands (words : List String)
  deriving DecidableEq, Repr

/-- One command of a line and what it has been given. -/
structure Part where
  command : Command
  /-- The switches in order, with their values. -/
  given : List (Switch × Option String)
  operands : List String
  pending : Pending
  /-- Two hyphens have been read: all that follows are operands. -/
  escaped : Bool
  deriving DecidableEq, Repr

namespace Part

/-- A command that has been given nothing yet. -/
def start (command : Command) : Part := ⟨command, [], [], .nothing, false⟩

/-- The switch has been given. -/
def holds (p : Part) (s : Switch) : Bool := p.given.any (·.1 == s)

/-- The value of a switch. -/
def value? (p : Part) (s : Switch) : Option String := (p.given.lookup s).join

/-! ## Settling -/

/-- Gives a switch. -/
def give (p : Part) (s : Switch) (text : Option String) : Except Refusal Part :=
  if p.holds s && !s.isRepeatable then .error .argumentConflict
  else if s.isPath && text.any (·.isEmpty) then .error .invalidValue
  else .ok { p with given := p.given ++ [(s, text)], pending := .nothing }

/-- Adds operands. -/
def addOperands (p : Part) (words : List String) : Except Refusal Part :=
  if p.command.operands == .paths && words.any (·.isEmpty) then .error .invalidValue
  else .ok { p with operands := p.operands ++ words, pending := .nothing }

/-- Settles what has been begun. -/
def settle (p : Part) : Except Refusal Part :=
  match p.pending with
  | .nothing => .ok p
  | .value _ none => .error .invalidValue
  | .value s (some text) => p.give s (some text)
  | .operands words => p.addOperands words

/-! ## Switches -/

/-- Takes a switch that has no value. -/
def takeFlag (p : Part) (s : Switch) : Except Refusal Part := do
  let p ← p.settle
  match s with
  | .help => .error .help
  | .version => .error .version
  | s => p.give s none

/-- Takes a switch that has a value, which may be due. -/
def takeValued (p : Part) (s : Switch) (text : Option String) : Except Refusal Part := do
  let p ← p.settle
  match text with
  | some text => p.give s (some text)
  | none => .ok { p with pending := .value s none }

/-- What stands before and behind the first equals sign. -/
def cutValue (s : List Char) : List Char × Option (List Char) :=
  match s.dropWhile (· ≠ '=') with
  | [] => (s, none)
  | _ :: value => (s.takeWhile (· ≠ '='), some value)

/-- Takes what stands behind two hyphens. -/
def takeName (p : Part) (s : List Char) : Except Refusal Part :=
  let (name, value) := cutValue s
  match p.command.ofName? (String.ofList name) with
  | none => .error .unknownArgument
  | some s =>
    if s.takesValue then p.takeValued s (value.map String.ofList)
    else if value.isSome then .error .tooManyValues
    else p.takeFlag s

/-- Takes what stands behind one hyphen: letters, the last of which may have a value. -/
def takeLetters (p : Part) : List Char → Except Refusal Part
  | [] => .ok p
  | c :: rest =>
    match p.command.ofLetter? c with
    | none => .error .unknownArgument
    | some s =>
      if s.takesValue then
        p.takeValued s <|
          match rest with
          | [] => none
          | '=' :: value => some (String.ofList value)
          | value => some (String.ofList value)
      else do
        let p ← p.takeFlag s
        p.takeLetters rest

/-! ## Operands -/

/-- The part has its operands. -/
def isFull (p : Part) : Bool :=
  match p.command.operands with
  | .none => true
  | .name => p.pending matches .operands _ || !p.operands.isEmpty
  | .paths => false

/-- Why an operand is not taken. -/
def refusal (p : Part) (word : String) : Refusal :=
  if p.escaped && (p.command.next.lookup word).isSome then .unknownArgument
  else if p.command.next.isEmpty then .unknownArgument
  else .unknownCommand

/-- Takes an operand. -/
def takeOperand (p : Part) (word : String) : Except Refusal Part :=
  if p.isFull then .error (p.refusal word) else
    match p.pending with
    | .operands words => .ok { p with pending := .operands (words ++ [word]) }
    | _ => do
      let p ← p.settle
      .ok { p with pending := .operands [word] }

/-! ## Words -/

/-- Takes a word. -/
def take (p : Part) (word : String) : Except Refusal Part :=
  if p.escaped then p.takeOperand word else
    match word.toList with
    | ['-', '-'] => .ok { p with escaped := true }
    | '-' :: '-' :: name => p.takeName name
    | '-' :: c :: letters => p.takeLetters (c :: letters)
    | _ =>
      match p.pending with
      | .value s none => .ok { p with pending := .value s (some word) }
      | _ => p.takeOperand word

/-- The part is in the midst of its paths, or waits for a value: the next word is no command. -/
def isBusy (p : Part) : Bool :=
  p.escaped ||
    match p.pending with
    | .nothing => false
    | .value _ text => text.isNone
    | .operands _ => p.command.operands == .paths

/-- The command that a word calls for. -/
def command? (p : Part) (word : String) : Option Command :=
  if p.isBusy then none else p.command.next.lookup word

/-- Ends a part. -/
def finish (p : Part) (goesOn : Bool) : Except Refusal Part := do
  let p ← p.settle
  if p.command.isOpen && !goesOn then .error .missingCommand
  else if p.command.operands == .name && p.operands.isEmpty then .error .missingArgument
  else .ok p

/-- What comes of asking for help with the commands that the words name. -/
def helpFor : Command → List String → Refusal
  | _, [] => .help
  | c, word :: words =>
    match c.next.lookup word with
    | some c => helpFor c words
    | none => .unknownCommand

/-- Reads the parts of a line, the first of which has been begun. A part ends after those that
follow it, so that faults of these come first. -/
def readAll (p : Part) : List String → Except Refusal (List Part)
  | [] => do .ok [← p.finish false]
  | word :: words =>
    match p.command? word with
    | some .help => .error (helpFor p.command words)
    | some c => do
      let below ← readAll (.start c) words
      .ok ((← p.finish true) :: below)
    | none => do
      let p ← p.take word
      readAll p words

end Part
end Relabel.CommandLine
