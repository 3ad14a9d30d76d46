import Relabel.Yaml.Node

/-!
# Typed reading

Values of given types from trees. A scalar that is not quoted may stand for a text whatever it
looks like; where a text may be missing, nothing and the words for nothing are no text.

* `text`, `flag`, `oneOf`: values of scalars.
* `optional`: a value that may be missing.
* `listOf`, `fieldsOf`: sequences and records.
-/

namespace Relabel.Yaml

/-- Reads a value from a tree of a document. -/
abbrev Reader (α : Type) := Document → Tree → Except Problem α

/-- The words for nothing. -/
def isNullWord (s : List Char) : Bool :=
  s == ['~'] || s == "null".toList || s == "Null".toList || s == "NULL".toList

/-- The truth value of a word. -/
def truth? (s : List Char) : Option Bool :=
  if s == "true".toList || s == "True".toList || s == "TRUE".toList then some true
  else if s == "false".toList || s == "False".toList || s == "FALSE".toList then some false
  else none

/-- A tag of the language. -/
def standardTag (name : String) : List UInt8 := asciiBytes ("tag:yaml.org,2002:" ++ name).toList

namespace Reader

/-! ## Scalars -/

/-- Any scalar as text. -/
def text : Reader String := fun d t =>
  match d.target t with
  | .scalar _ s _ => .ok (String.ofList s)
  | _ => .error (.wrongType "a string")

/-- A truth value. -/
def flag : Reader Bool := fun d t =>
  match d.target t with
  | .scalar tag s style =>
    if style = .plain ∨ (style = .literal ∧ tag = some (standardTag "bool")) then
      match truth? s with
      | some b => .ok b
      | none => .error (.wrongValue (String.ofList s) "a boolean")
    else .error (.wrongType "a boolean")
  | _ => .error (.wrongType "a boolean")

/-- The word that a scalar stands for among some words: its text, or its own tag if nothing is
written behind it. -/
def choice : Reader String := fun d t =>
  match d.target t with
  | .scalar tag s style =>
    match tag with
    | some (b :: name) =>
      if [b] ≠ bang then .ok (String.ofList s)
      else if style = .plain ∧ (s.isEmpty ∨ isNullWord s) then
        .ok ((Utf8.text? name).getD (String.ofList s))
      else .error (.wrongType "unit variant")
    | _ => .ok (String.ofList s)
  | _ => .error (.wrongType "a word")

/-- One of some values that have names. -/
def oneOf {α : Type} (ofName? : String → Option α) : Reader α := fun d t => do
  let word ← choice d t
  match ofName? word with
  | some a => .ok a
  | none => .error (.wrongValue word "one of the known words")

/-! ## Missing values -/

/-- The tree stands for nothing where a value may be missing. -/
def isNothing : Tree → Except Problem Bool
  | .scalar tag s .plain =>
    match tag with
    | some g =>
      if g ≠ standardTag "null" then .ok false
      else if isNullWord s then .ok true
      else .error (.wrongValue (String.ofList s) "null")
    | none => .ok (s.isEmpty || isNullWord s)
  | _ => .ok false

/-- A value that may be missing. -/
def optional {α : Type} (r : Reader α) : Reader (Option α) := fun d t => do
  if ← isNothing (d.target t) then .ok none else some <$> r d t

/-- A text that is empty if it is missing. -/
def textOrEmpty : Reader String := fun d t => do .ok ((← optional text d t).getD "")

/-! ## Sequences and records -/

/-- Nothing is written where a sequence or a record is due. -/
def isBare : Tree → Bool
  | .scalar _ s style => s.isEmpty && style == .plain
  | _ => false

/-- A sequence; where nothing is written it is empty. -/
def listOf {α : Type} (r : Reader α) : Reader (List α) := fun d t =>
  match d.target t with
  | .sequence _ items => items.mapM (r d)
  | t => if isBare t then .ok [] else .error (.wrongType "a sequence")

/-- The fields of a record. `known` are the names of its fields; others count for nothing, or are
refused if the record is `closed`. No field may be given twice. -/
def addFields (d : Document) (known : List String) (closed : Bool) :
    List (Tree × Tree) → List (String × Tree) → Except Problem (List (String × Tree))
  | [], given => .ok given
  | (key, value) :: entries, given => do
    let name ← text d key
    if known.contains name then
      if (given.lookup name).isSome then .error (.repeatedField name)
      else addFields d known closed entries (given ++ [(name, value)])
    else if closed then .error (.unknownField name)
    else addFields d known closed entries given

/-- The fields of a record; where nothing is written it has none. -/
def fieldsOf (known : List String) (closed : Bool) : Reader (List (String × Tree)) := fun d t =>
  match d.target t with
  | .mapping _ entries => addFields d known closed entries []
  | t => if isBare t then .ok [] else .error (.wrongType "a record")

/-- Reads a field that must be given. -/
def required {α : Type} (name : String) (r : Reader α) (d : Document)
    (fields : List (String × Tree)) : Except Problem α :=
  match fields.lookup name with
  | some t => r d t
  | none => .error (.missingField name)

/-- Reads a field that need not be given. -/
def orElse {α : Type} (name : String) (r : Reader α) (default : α) (d : Document)
    (fields : List (String × Tree)) : Except Problem α :=
  match fields.lookup name with
  | some t => r d t
  | none => .ok default

end Reader

/-- Reads a value from the text of a file; `nothing` is what a file without a document gives. -/
def readText {α : Type} (nothing : Except Problem α) (r : Reader α) (text : String) :
    Except Problem α := do
  match ← Document.ofText? text with
  | some d => r d d.root
  | none => nothing

end Relabel.Yaml
