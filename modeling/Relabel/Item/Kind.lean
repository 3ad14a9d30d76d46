/-!
# Kinds of items

* `Kind.name`: how a kind is written in a file.
* `Kind.label`: how a kind is shown.
-/

namespace Relabel

/-- What an item is. -/
inductive Kind where
  | workspace
  | library
  | desktop
  | reelGroup
  | reel
  | folder
  | sequence
  | clip
  | segment
  | transition
  deriving DecidableEq, Repr

namespace Kind

/-- Every kind. -/
def all : List Kind :=
  [workspace, library, desktop, reelGroup, reel, folder, sequence, clip, segment, transition]

theorem mem_all (k : Kind) : k ∈ all := by cases k <;> decide

/-- The kind as it is written in a file. -/
def name : Kind → String
  | workspace => "workspace"
  | library => "library"
  | desktop => "desktop"
  | reelGroup => "reel_group"
  | reel => "reel"
  | folder => "folder"
  | sequence => "sequence"
  | clip => "clip"
  | segment => "segment"
  | transition => "transition"

/-- The kind as it is shown. -/
def label : Kind → String
  | reelGroup => "reel group"
  | k => k.name

/-- The kind of a name. -/
def ofName? (s : String) : Option Kind := all.find? (·.name == s)

end Kind
end Relabel
