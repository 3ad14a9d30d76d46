import Relabel.Preset.Catalogue
import Relabel.World

/-!
# The store of presets

A store is the catalogue in memory together with the file that it belongs to. Edits stay in memory
until the store is saved; a store that is not `dirty` agrees with its file.

* `Store.load`, `Store.reload`, `Store.save`: the traffic with the file.
* `Store.add`, `Store.overwrite`, `Store.delete`, `Store.sort`: edits.
-/

namespace Relabel

/-- A catalogue in memory, and its file. -/
structure Store where
  path : Path
  catalogue : Catalogue
  /-- There are edits that the file does not have. -/
  dirty : Bool
  deriving DecidableEq, Repr

namespace Store

/-! ## The file -/

/-- The catalogue in a file; a missing file holds none. -/
def readCatalogue (d : Disk) (path : Path) : Except Error Catalogue :=
  if !d.pathExists path then .ok .blank else
    match d.readText path with
    | .error e => .error (.persistence "read" path e.message)
    | .ok text =>
      match Catalogue.ofText text with
      | .error e => .error (.persistence "parse" path e.message)
      | .ok c => .ok c

/-- The catalogue in a file, with a word where the file is missing. -/
def fetch (path : Path) : Act Catalogue := do
  let d ← World.getDisk
  if !d.pathExists path then World.debug s!"No preset file at {path}, starting empty"
  match readCatalogue d path with
  | .ok c => pure c
  | .error e => throw e

/-- The store of the file at a path. -/
def load (path : Path) : Act Store := do pure ⟨path, ← fetch path, false⟩

/-- Reads the file again and drops all edits. -/
def reload (s : Store) : Act Store := do pure { s with catalogue := ← fetch s.path, dirty := false }

/-- Makes the directory that a file is to be in, unless it is there. -/
def makeFolderFor (path : Path) : Act Unit := do
  match path.parent? with
  | none => pure ()
  | some folder =>
    let d ← World.getDisk
    if !(folder.isEmpty || d.pathExists folder) then
      World.makeFolders folder

/-- Writes the catalogue into the file. -/
def save (s : Store) : Act Store := do
  makeFolderFor s.path
  World.writeFile s.path s.catalogue.render
  World.debug s!"Saved {s.catalogue.presets.length} preset(s) to {s.path}"
  pure { s with dirty := false }

/-! ## Presets by name -/

def presets (s : Store) : List Preset := s.catalogue.presets

def get? (s : Store) (name : String) : Option Preset := s.catalogue.get? name

def holds (s : Store) (name : String) : Bool := s.catalogue.holds name

/-! ## Edits -/

/-- Sets the catalogue. -/
def edit (s : Store) (c : Catalogue) : Store := { s with catalogue := c, dirty := true }

/-- Adds a preset at the end, whatever names there are. -/
def add (s : Store) (p : Preset) : Store := s.edit (s.catalogue.add p)

/-- Puts `p` in the place of the first preset of its name; nothing happens if there is none. -/
def overwrite (s : Store) (p : Preset) : Store :=
  if s.holds p.name then s.edit (s.catalogue.put p) else s

/-- The store holds this very preset. -/
def holdsPreset (s : Store) (p : Preset) : Bool := s.presets.contains p

/-- Removes the first of the presets that equal `p`. -/
def delete (s : Store) (p : Preset) : Store :=
  if s.holdsPreset p then s.edit (s.catalogue.removePreset p) else s

/-- What is said when a preset is removed. -/
def deletionNote (s : Store) (p : Preset) : List Journal.Entry :=
  if s.holdsPreset p then [.record .info s!"{p.name} preset deleted from {s.path}"] else []

/-- Puts the presets in the order of their names. -/
def sort (s : Store) : Store := s.edit s.catalogue.sort

end Store
end Relabel
