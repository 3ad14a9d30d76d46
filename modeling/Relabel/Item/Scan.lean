import Relabel.Item.Basic

/-!
# The items of a directory

Every visible entry of a directory as an item, in the order of their names. An entry is hidden if
its name begins with a dot, and left out if its name is no text.
-/

namespace Relabel.Item

/-- The entry is not shown. -/
def isHidden (name : FileName) : Bool := name.head? == some 0x2E

/-- The names of visible entries, in byte order. -/
def visibleNames (names : List FileName) : List FileName :=
  (names.filter fun n => !isHidden n).mergeSort FileName.le

/-- The items at some paths; a path that gives none is left out. -/
def ofPaths : List Path → Deed (List Item)
  | [] => pure []
  | p :: ps => do
    match ← (ofPath p).run with
    | .ok item => pure (item :: (← ofPaths ps))
    | .error _ => ofPaths ps

/-- The items of a directory. -/
def scan (folder : Path) : Act (List Item) := do
  World.debug s!"Scanning directory: {folder}"
  match (← World.getDisk).listFolder folder with
  | .error e => throw (.persistence "read directory" folder e.message)
  | .ok names =>
    let items ← ofPaths ((visibleNames names).map fun n => folder.join ⟨n⟩)
    World.debug s!"Found {items.length} entries in directory"
    pure items

end Relabel.Item
