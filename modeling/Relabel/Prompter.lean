import Relabel.Text.Utf8
import Relabel.Text
import Relabel.Journal

/-!
# Questions to the user

A prompter answers questions. Its answers are known beforehand, or come from an input, or are the
same each time.

* `Prompter.askName`: asks for the name of a preset.
* `Prompter.confirm`: asks a question that is answered by yes or no.
* `Prompter.notify`: tells of an error.
-/

namespace Relabel

/-- What a prompter has been asked or told. -/
inductive Asked where
  | name (offered : Option String)
  | confirm (title message : String)
  | error (title message : String)
  deriving DecidableEq, Repr

/-- Who answers questions. -/
inductive Prompter where
  /-- Answers in turn; when they have run out there is no name, and the answer is no. -/
  | scripted (names : List (Option String)) (answers : List Bool) (asked : List Asked)
  /-- One name, handed out once, and one answer. -/
  | fixed (name : Option String) (answer : Bool) (errors : List String)
  /-- Someone who types lines, at a terminal or into a file. -/
  | typist (input : List UInt8) (atTerminal : Bool)
  /-- One name, handed out once; all other questions go to somebody else. -/
  | named (name : Option String) (others : Prompter)
  deriving DecidableEq, Repr

/-- What comes of a question: the answer, the prompter afterwards and what the user is told. -/
structure Reply (α : Type) where
  answer : α
  prompter : Prompter
  entries : List Journal.Entry := []

namespace Prompter

/-! ## Lines of an input -/

/-- The byte that ends a line. -/
def lineFeed : UInt8 := 0x0A

/-- The first line of an input with the byte that ends it, and the rest. -/
def cutLine : List UInt8 → List UInt8 × List UInt8
  | [] => ([], [])
  | b :: r => if b = lineFeed then ([b], r) else ((b :: (cutLine r).1), (cutLine r).2)

/-- The text without the line ends it closes with. -/
def trimLineEnds (s : String) : String :=
  String.ofList (s.toList.reverse.dropWhile fun c => c = '\r' || c = '\n').reverse

/-- Reads a line; there is none at the end of the input and where the line is no text. -/
def readLine (input : List UInt8) (atTerminal : Bool) : Reply (Option String) :=
  let (line, rest) := cutLine input
  if line.isEmpty then ⟨none, typist rest atTerminal, []⟩ else
    match Utf8.text? line with
    | some s => ⟨some (trimLineEnds s), typist rest atTerminal, []⟩
    | none => ⟨none, typist rest atTerminal,
        [.record .debug "Failed to read from stdin: stream did not contain valid UTF-8"]⟩

/-! ## Questions -/

/-- What a typed line names, given the name that was offered: blanks around a name do not count,
and a blank line takes the offer. -/
def chosenName (offered : Option String) (line : String) : String :=
  let name := String.ofList (Text.trim line.toList)
  if name.isEmpty then offered.getD line else name

/-- Asks for the name of a preset, offering one. No name means that nothing is to be done. -/
def askName (offered : Option String) : Prompter → Reply (Option String)
  | scripted names answers asked =>
    ⟨names.head?.join, scripted names.tail answers (asked ++ [.name offered]), []⟩
  | fixed name answer errors => ⟨name, fixed none answer errors, []⟩
  | typist input atTerminal =>
    let question :=
      match offered with
      | some name => s!"Preset name [{name}]: "
      | none => "Preset name: "
    let r := readLine input atTerminal
    ⟨r.answer.map (chosenName offered), r.prompter, .printed question :: r.entries⟩
  | named name others => ⟨name, named none others, []⟩

/-- The line means yes. -/
def meansYes (line : String) : Bool :=
  let word := Text.lowerAscii (String.ofList (Text.trim line.toList))
  word == "y" || word == "yes"

/-- Asks a question that is answered by yes or no. -/
def confirm (title message : String) : Prompter → Reply Bool
  | scripted names answers asked =>
    ⟨answers.head?.getD false, scripted names answers.tail (asked ++ [.confirm title message]), []⟩
  | fixed name answer errors =>
    let word := if answer then "yes" else "no"
    ⟨answer, fixed name answer errors, [.record .debug s!"{title}: answering {word}"]⟩
  | typist input false =>
    ⟨false, typist input false, [.record .debug s!"{title}: stdin is not a terminal, answering no"]⟩
  | typist input true =>
    let r := readLine input true
    ⟨meansYes (r.answer.getD ""), r.prompter,
      .printed (title ++ "\n") :: .printed s!"{message} (y/n) " :: r.entries⟩
  | named name others =>
    let r := others.confirm title message
    ⟨r.answer, named name r.prompter, r.entries⟩

/-- Tells of an error. -/
def notify (title message : String) : Prompter → Reply Unit
  | scripted names answers asked =>
    ⟨(), scripted names answers (asked ++ [.error title message]), []⟩
  | fixed name answer errors =>
    ⟨(), fixed name answer (errors ++ [message]), [.record .error s!"{title}: {message}"]⟩
  | typist input atTerminal =>
    ⟨(), typist input atTerminal, [.record .error s!"{title}: {message}"]⟩
  | named name others =>
    let r := others.notify title message
    ⟨(), named name r.prompter, r.entries⟩

/-- The prompter that gets the other questions, if this one hands out one name. -/
def behind : Prompter → Prompter
  | named _ others => others
  | p => p

/-- How often a prompter may still be asked for a name before it has none. -/
def namesLeft : Prompter → Nat
  | scripted names _ _ => names.length
  | fixed name _ _ => if name.isSome then 1 else 0
  | typist input _ => input.length
  | named name _ => if name.isSome then 1 else 0

end Prompter
end Relabel
