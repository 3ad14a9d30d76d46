import Relabel.Item.Selection
import Relabel.Yaml.Value
import Relabel.Yaml.Reading

/-!
# Manifests

A manifest is a file that lists items, so that things can be renamed that are no files.

* `Manifest.render`, `Manifest.ofText`: the text of the file, and back.
* `Manifest.load`, `Manifest.save`: the traffic with the file.
* `Manifest.items`, `Manifest.withItems`: the items of a run, and back.
-/

namespace Relabel

/-- One item of a manifest. -/
structure Listing where
  name : String
  kind : Kind
  /-- What a token may stand for. -/
  context : Option String
  /-- The item keeps its name. -/
  locked : Bool
  deriving DecidableEq, Repr

/-- The items in a file. -/
structure Manifest where
  listings : List Listing
  deriving DecidableEq, Repr

namespace Listing

/-- The item as a run sees it. -/
def toItem (l : Listing) : Item := .listed l.name l.kind (.ok l.context) l.locked

open Yaml (Value Reader)

/-- A missing context and an open lock are not written. -/
def toValue (l : Listing) : Value :=
  .record ([("name", .text l.name), ("kind", .text l.kind.name)] ++
    (l.context.map fun c => ("context", Value.text c)).toList ++
    (if l.locked then [("locked", .flag true)] else []))

def read : Reader Listing := fun d t => do
  let fields ← Reader.fieldsOf ["name", "kind", "context", "locked"] false d t
  .ok {
    name := ← Reader.required "name" Reader.text d fields
    kind := ← Reader.required "kind" (Reader.oneOf Kind.ofName?) d fields
    context := ← Reader.orElse "context" (Reader.optional Reader.text) none d fields
    locked := ← Reader.orElse "locked" Reader.flag false d fields }

end Listing

namespace Manifest

open Yaml (Value Reader Problem)

/-! ## The file -/

def toValue (m : Manifest) : Value := .record [("items", .list (m.listings.map Listing.toValue))]

/-- The text of the file. -/
def render (m : Manifest) : String := m.toValue.render

def read : Reader Manifest := fun d t => do
  let fields ← Reader.fieldsOf ["items"] false d t
  .ok ⟨← Reader.orElse "items" (Reader.listOf Listing.read) [] d fields⟩

/-- The manifest that the text of a file holds. -/
def ofText (text : String) : Except Problem Manifest := Yaml.readText (.ok ⟨[]⟩) read text

/-- The manifest in a file. -/
def ofFile (d : Disk) (path : Path) : Except Error Manifest :=
  match d.readText path with
  | .error e => .error (.persistence "read" path e.message)
  | .ok text =>
    match ofText text with
    | .error e => .error (.persistence "parse" path e.message)
    | .ok m => .ok m

def load (path : Path) : Act Manifest := do
  match ofFile (← World.getDisk) path with
  | .ok m => pure m
  | .error e => throw e

/-- Writes the manifest into a file. -/
def save (m : Manifest) (path : Path) : Act Unit := World.writeFile path m.render

/-! ## Items -/

def kinds (m : Manifest) : List Kind := m.listings.map Listing.kind

/-- The items of a run. -/
def items (m : Manifest) : List Item := m.listings.map Listing.toItem

/-- The manifest after a run: the names are those of the items, one for each listing. -/
def withItems (m : Manifest) (items : List Item) : Manifest :=
  ⟨List.zipWith (fun l item => { l with name := item.name }) m.listings items⟩

end Manifest
end Relabel
