import Relabel.Item.Kind
import Relabel.World

/-!
# Items

An item is something with a name that can be changed: an item of a list, or an entry of a directory.

* `Item.rename`: gives an item a new name, unless the item refuses it.
* `Item.ofPath`: the item of an entry of a directory.
-/

namespace Relabel

/-- Something that can be renamed. -/
inductive Item where
  /-- An item of a list. Its context is a text that a token may stand for; looking it up may fail.
  A locked item keeps its name. -/
  | listed (name : String) (kind : Kind) (context : Except Error (Option String)) (locked : Bool)
  /-- An entry of a directory. -/
  | onDisk (path : Path) (kind : Kind)

namespace Item

/-- The name of the item. -/
def name : Item → String
  | listed name _ _ _ => name
  | onDisk path _ => (path.fileName?.map FileName.display).getD ""

def kind : Item → Kind
  | listed _ kind _ _ => kind
  | onDisk _ kind => kind

/-- The text that a token may stand for. -/
def context : Item → Except Error (Option String)
  | listed _ _ context _ => context
  | onDisk _ _ => .ok none

/-! ## Entries of directories -/

/-- The item of the entry at a path. -/
def ofPath (path : Path) : Act Item := do
  match path.fileName? with
  | none => throw (.generic s!"Failed to get name from path: {path}")
  | some file =>
    match Utf8.text? file with
    | none => throw (.generic s!"Invalid name: {path}")
    | some name =>
      World.debug s!"Selected {name}"
      let d ← World.getDisk
      pure (onDisk path (if d.isFolderAt path then .folder else .clip))

/-- Refuses a name that an entry of a directory cannot take. `p` is the entry's path and `q` the
path that it would get. -/
def checkName (d : Disk) (p q : Path) (current name : String) : Except Error Unit :=
  if name.isEmpty then .error (.mutation current "the new name is empty")
  else if name.toList.any fun c => c = '/' || c = '\\' then
    .error (.mutation current "the new name contains a path separator")
  else if d.pathExists q && !d.sameNode p q then
    .error (.mutation current s!"{q} already exists")
  else .ok ()

/-- Moves the entry at `path` to another name in the same directory. -/
def move (path : Path) (kind : Kind) (name : String) : Act Item := do
  let current := (onDisk path kind).name
  let target := path.withFileName (Utf8.encode name)
  match checkName (← World.getDisk) path target current name with
  | .error e => throw e
  | .ok () =>
    match (← World.getDisk).rename path target with
    | .error e => throw (.mutation current e.message)
    | .ok d =>
      World.setDisk (.rename path target) d
      World.debug s!"Moved {path} -> {target}"
      pure (onDisk target kind)

/-! ## Renaming -/

/-- Gives an item a new name. -/
def rename (item : Item) (name : String) : Act Item :=
  match item with
  | listed old kind context locked =>
    if locked then throw (.mutation old "item is locked")
    else pure (listed name kind context locked)
  | onDisk path kind => move path kind name

end Item
end Relabel
