import Relabel.Item.Basic

/-!
# Selections

The items of one run, in order. Items of some kinds may be left out; they stay in their places but
take no part.

* `Selection.members`: the items that take part.
-/

namespace Relabel

/-- Items, and the kinds whose items take no part. -/
structure Selection where
  items : List Item
  excluded : List Kind

namespace Selection

/-- All of some items. -/
def ofItems (items : List Item) : Selection := ⟨items, []⟩

/-- The item takes part. -/
def takes (s : Selection) (item : Item) : Bool := !s.excluded.contains item.kind

/-- The items that take part. -/
def members (s : Selection) : List Item := s.items.filter s.takes

/-- Leaves out the items of a kind. -/
def exclude (s : Selection) (kind : Kind) : Selection := { s with excluded := kind :: s.excluded }

/-- The names of the members. -/
def names (s : Selection) : List String := s.members.map Item.name

/-- The kinds of the members. -/
def kinds (s : Selection) : List Kind := s.members.map Item.kind

/-- How many items take part. -/
def size (s : Selection) : Nat := s.members.length

/-- The text that says how many items a kind has cost the selection. -/
def exclusionNote (s : Selection) (kind : Kind) : String :=
  s!"Removed {s.size - (s.exclude kind).size} {kind.label} item(s) from the selection"

/-- Leaves out the items of a kind and says so. -/
def filterKind (s : Selection) (kind : Kind) : Deed Selection := do
  World.debug (s.exclusionNote kind)
  pure (s.exclude kind)

/-- Puts new members in the place of the old ones, in order. -/
def withMembers (s : Selection) (members : List Item) : Selection :=
  { s with items := go s.items members }
where
  go : List Item → List Item → List Item
    | [], _ => []
    | item :: rest, ms =>
      if s.takes item then
        match ms with
        | m :: ms => m :: go rest ms
        | [] => item :: go rest []
      else item :: go rest ms

end Selection
end Relabel
