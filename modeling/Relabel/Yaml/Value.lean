import Relabel.Yaml.Scalar

/-!
# Writing files

Values as the text of a file. Records and lists are blocks; a record is indented by two columns
within a record, and a list is not indented.

* `Value`: what is written.
* `Value.render`: the text.
-/

namespace Relabel.Yaml

/-- A value that can be written. -/
inductive Value where
  | text (s : String)
  | flag (b : Bool)
  | list (items : List Value)
  | record (fields : List (String × Value))

namespace Value

/-- Ends a line, unless it has ended. -/
def closeLine (s : List Char) : List Char := if s.getLast?.any isBreak then s else s ++ ['\n']

mutual

/-- The text of a value that comes behind a key in the column `indent`, up to a line end. -/
def afterKey (indent : Nat) : Value → List Char
  | .text s => closeLine (' ' :: written (indent + 2) s.toList)
  | .flag b => (if b then " true" else " false").toList ++ ['\n']
  | .list items =>
    match items with
    | [] => " []\n".toList
    | _ => '\n' :: itemLines indent items
  | .record fields =>
    match fields with
    | [] => " \x7b\x7d\n".toList
    | _ => '\n' :: fieldLines (indent + 2) fields

/-- The text of a value as a block in the column `indent`. -/
def lines (indent : Nat) : Value → List Char
  | .text s => closeLine (spaces indent ++ written indent s.toList)
  | .flag b => spaces indent ++ (if b then "true" else "false").toList ++ ['\n']
  | .list items =>
    match items with
    | [] => spaces indent ++ "[]\n".toList
    | _ => itemLines indent items
  | .record fields =>
    match fields with
    | [] => spaces indent ++ "\x7b\x7d\n".toList
    | _ => fieldLines indent fields

/-- The items of a list, each behind a hyphen. -/
def itemLines (indent : Nat) : List Value → List Char
  | [] => []
  | v :: vs =>
    spaces indent ++ '-' :: ' ' :: (lines (indent + 2) v).drop (indent + 2) ++ itemLines indent vs

/-- The fields of a record. -/
def fieldLines (indent : Nat) : List (String × Value) → List Char
  | [] => []
  | (key, v) :: fields =>
    spaces indent ++ key.toList ++ ':' :: afterKey indent v ++ fieldLines indent fields

end

/-- The text of a file that holds a value. -/
def render (v : Value) : String := String.ofList (v.lines 0)

end Value
end Relabel.Yaml
