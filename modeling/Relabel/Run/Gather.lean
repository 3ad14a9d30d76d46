import Relabel.Item.Manifest
import Relabel.Item.Scan
import Relabel.Run.Request
import Relabel.Session.Target

/-!
# The items of a run

The items that are listed in a manifest, or the entries at given paths, or the entries of the
current directory.
-/

namespace Relabel.Run

/-- The entries at some paths, all of which must be there. -/
def entriesAt : List Path → Act (List Item)
  | [] => pure []
  | path :: paths => do
    if !(← World.getDisk).pathExists path then throw (.run s!"{path} does not exist")
    let item ← Item.ofPath path
    pure (item :: (← entriesAt paths))

/-- The entries of the current directory. -/
def entriesHere : Act (List Item) := do
  match (← World.getDisk).currentPath with
  | .error e => throw (.run s!"Failed to read the current directory: {e.message}")
  | .ok path => Item.scan path

/-- Where the items of a run come from. -/
inductive Source where
  | manifest (path : Path) (m : Manifest)
  | folders

/-- The items that the options ask for, and where they come from. -/
def gather (o : Options) : Act (Source × List Item) := do
  match o.manifest? with
  | some path =>
    let m ← Manifest.load path
    pure (.manifest path m, m.items)
  | none =>
    let items ← if o.paths.isEmpty then entriesHere else entriesAt o.paths
    pure (.folders, items)

/-- Refuses items that cannot be renamed from the target. -/
def checkScope (target : Target) (items : List Item) : Except Error Unit :=
  if target.admits (items.map Item.kind) then .ok ()
  else .error (.run
    s!"The selection contains items that cannot be renamed from the {target.label}")

/-- Writes a manifest whose items have been renamed. -/
def Source.update (items : List Item) : Source → Act Unit
  | folders => pure ()
  | manifest path m => do
    (m.withItems items).save path
    World.info s!"Updated manifest {path}"

end Relabel.Run
