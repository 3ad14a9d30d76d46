import Relabel.Find.Wildcard
import Relabel.Settings.Expansion
import Relabel.Settings.Folder
import Relabel.Yaml.Reading

/-!
# Settings

What a user can settle in a file for all runs. Every field may be missing; a file that is missing or
blank settles nothing.

* `Settings.load`, `Settings.readOrDefault`: the settings in a file.
* `Settings.validate`: refuses fields that are blank.
* `Settings.presetsPath`: the path of the preset file.
-/

namespace Relabel

/-- What a user can settle for all runs. -/
structure Settings where
  /-- The preset file; the path may mention variables and the home. -/
  presetsFile? : Option String
  mode : Find.Mode
  project? : Option String
  user? : Option String
  deriving DecidableEq, Repr

namespace Settings

open Yaml (Reader Problem)

/-- The settings of a user who has settled nothing. -/
def default : Settings := ⟨none, .legacy, none, none⟩

/-! ## The file -/

/-- The mode of a name. -/
def modeOfName? : String → Option Find.Mode
  | "legacy" => some .legacy
  | "any_sequence" => some .anySequence
  | _ => none

def read : Reader Settings := fun d t => do
  let fields ← Reader.fieldsOf ["presets_file", "wildcard_mode", "project", "user"] true d t
  .ok {
    presetsFile? := ← Reader.orElse "presets_file" (Reader.optional Reader.text) none d fields
    mode := ← Reader.orElse "wildcard_mode" (Reader.oneOf modeOfName?) .legacy d fields
    project? := ← Reader.orElse "project" (Reader.optional Reader.text) none d fields
    user? := ← Reader.orElse "user" (Reader.optional Reader.text) none d fields }

/-- The settings that the text of a file holds. -/
def ofText (text : String) : Except Problem Settings := Yaml.readText (.ok default) read text

/-- Refuses a field that is given but blank. -/
def checkField (name : String) (value? : Option String) : Except Error Unit :=
  if value?.any Text.isBlankText then
    .error (.run s!"Configuration field '{name}' is empty. Remove it or give it a value.")
  else .ok ()

/-- Refuses settings with a blank field. -/
def validate (s : Settings) : Except Error Unit := do
  checkField "presets_file" s.presetsFile?
  checkField "project" s.project?
  checkField "user" s.user?

/-- The settings in the bytes of the file at a path. -/
def ofBytes (path : Path) (bytes : List UInt8) : Except Error Settings := do
  match Utf8.decode bytes with
  | .error fault =>
    .error (.run
      s!"Configuration file {path} contains invalid UTF-8 characters: {fault.message}")
  | .ok text =>
    if Text.isBlankText text then .ok default else
      match ofText text with
      | .error problem =>
        .error (.run <| s!"Failed to parse configuration file {path}: {problem.message}\n" ++
          "Please check the YAML syntax.")
      | .ok s =>
        s.validate
        .ok s

/-- The settings in a file. -/
def load (path : Path) : Act Settings := do
  match (← World.getDisk).contentAt path with
  | .error e => throw (.run s!"Failed to read configuration file {path}: {e.message}")
  | .ok bytes =>
    if (Utf8.text? bytes).any Text.isBlankText then
      World.debug s!"Configuration file {path} is empty"
    match ofBytes path bytes with
    | .error e => throw e
    | .ok s => pure s

/-- The name of the file in the program's directory. -/
def fileName : String := "config.yaml"

/-- The settings in the given file, which must be there, or in the file of the program's
directory. -/
def readOrDefault (path? : Option Path) : Act Settings := do
  match path? with
  | some path =>
    if (← World.getDisk).pathExists path then load path
    else throw (.run s!"Configuration file {path} does not exist")
  | none =>
    match pathOf (← get) fileName with
    | .error e => throw e
    | .ok path =>
      if (← World.getDisk).isFileAt path then
        World.debug s!"Using configuration file {path}"
        load path
      else
        World.debug "No configuration file, using defaults"
        pure default

/-! ## The preset file -/

/-- The name of the preset file in the program's directory. -/
def presetFileName : String := "find_replace_in_name_advance.yaml"

/-- The path of the preset file. -/
def presetsPath (s : Settings) (w : World) : Except Error Path :=
  match s.presetsFile? with
  | none => pathOf w presetFileName
  | some text =>
    match Expansion.expand w.lookupVariable (home? w) text with
    | .ok path => .ok (.ofString path)
    | .error name =>
      .error (.run <| s!"Failed to expand presets_file '{text}': " ++
        s!"error looking key '{name}' up: environment variable not found")

end Settings
end Relabel
