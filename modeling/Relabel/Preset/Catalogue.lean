import Relabel.Yaml.Value
import Relabel.Yaml.Reading

/-!
# Catalogues of presets

A preset is a pair of find text and replace template under a name. A catalogue is what the preset
file holds: presets in order, with the title and the version of the tool that they are for.

* `Catalogue.render`, `Catalogue.ofText`: the text of the file, and back.
* `Catalogue.put`, `Catalogue.removePreset`, `Catalogue.sort`: edits.
-/

namespace Relabel

/-- A find text and a replace template under a name. -/
structure Preset where
  name : String
  find : String
  replace : String
  deriving DecidableEq, Repr

/-- What the preset file holds. -/
structure Catalogue where
  title : String
  version : String
  presets : List Preset
  deriving DecidableEq, Repr

/-- The title of the tool. -/
def toolTitle : String := "Find and Replace in Name Advance"

/-- The version of the tool. -/
def toolVersion : String := "0.1.0"

namespace Catalogue

open Yaml (Value Reader Problem)

/-- A catalogue without presets. -/
def blank : Catalogue := ⟨toolTitle, toolVersion, []⟩

/-! ## The file -/

def presetValue (p : Preset) : Value :=
  .record [("name", .text p.name), ("find", .text p.find), ("replace", .text p.replace)]

def toValue (c : Catalogue) : Value :=
  .record [("settings", .record [("script_name", .record [
    ("title", .text c.title),
    ("version", .record [
      ("number", .text c.version),
      ("presets", .list (c.presets.map presetValue))])])])]

/-- The text of the file. -/
def render (c : Catalogue) : String := c.toValue.render

/-- Reads a preset; a text that is missing is empty. -/
def readPreset : Reader Preset := fun d t => do
  let fields ← Reader.fieldsOf ["name", "find", "replace"] false d t
  .ok {
    name := ← Reader.orElse "name" Reader.textOrEmpty "" d fields
    find := ← Reader.orElse "find" Reader.textOrEmpty "" d fields
    replace := ← Reader.orElse "replace" Reader.textOrEmpty "" d fields }

/-- Reads the part that goes with a version. -/
def readVersion : Reader (String × List Preset) := fun d t => do
  let fields ← Reader.fieldsOf ["number", "presets"] false d t
  let number ← Reader.orElse "number" Reader.textOrEmpty "" d fields
  let presets ← Reader.orElse "presets" (Reader.optional (Reader.listOf readPreset)) none d fields
  .ok (number, presets.getD [])

/-- Reads the part that goes with a title. -/
def readTool : Reader Catalogue := fun d t => do
  let fields ← Reader.fieldsOf ["title", "version"] false d t
  let title ← Reader.orElse "title" Reader.textOrEmpty "" d fields
  let (number, presets) ← Reader.required "version" readVersion d fields
  .ok ⟨title, number, presets⟩

/-- Reads the only field of a record. -/
def readOnly {α : Type} (name : String) (r : Reader α) : Reader α := fun d t => do
  Reader.required name r d (← Reader.fieldsOf [name] false d t)

def read : Reader Catalogue := readOnly "settings" (readOnly "script_name" readTool)

/-- The catalogue that the text of a file holds. -/
def ofText (text : String) : Except Problem Catalogue :=
  Yaml.readText (.error (.missingField "settings")) read text

/-! ## Presets by name -/

/-- The first preset of a name. -/
def get? (c : Catalogue) (name : String) : Option Preset := c.presets.find? (·.name == name)

/-- There is a preset of the name. -/
def holds (c : Catalogue) (name : String) : Bool := (c.get? name).isSome

def names (c : Catalogue) : List String := c.presets.map Preset.name

/-! ## Edits -/

/-- Adds a preset at the end. -/
def add (c : Catalogue) (p : Preset) : Catalogue := { c with presets := c.presets ++ [p] }

/-- Puts `p` in the place of the first preset of its name. -/
def replaceFirst (p : Preset) : List Preset → List Preset
  | [] => []
  | q :: qs => if q.name = p.name then p :: qs else q :: replaceFirst p qs

/-- Puts `p` in the place of the first preset of its name. -/
def put (c : Catalogue) (p : Preset) : Catalogue :=
  { c with presets := replaceFirst p c.presets }

/-- Removes the first of the presets that equal `p`. -/
def removePreset (c : Catalogue) (p : Preset) : Catalogue :=
  { c with presets := c.presets.erase p }

/-- Puts the presets in the order of their names; presets of one name keep their order. -/
def sort (c : Catalogue) : Catalogue :=
  { c with presets := c.presets.mergeSort fun p q => decide (p.name ≤ q.name) }

end Catalogue
end Relabel
