import Relabel.Disk.Path

/-!
# Requests

What a run is asked to do.
-/

namespace Relabel.Run

/-- What a run is to do. -/
inductive Action where
  | rename
  | listPresets
  | savePreset (name find replace : String)
  | deletePreset (name : String)
  | listTokens
  deriving DecidableEq, Repr

/-- What can be asked for with every action. -/
structure Options where
  /-- The settings file; there is one in the program's directory otherwise. -/
  settings? : Option Path
  find? : Option String
  replace? : Option String
  /-- The preset that the fields are taken from before `find?` and `replace?` are set. -/
  preset? : Option String
  /-- The manifest that lists the items; they are entries of directories otherwise. -/
  manifest? : Option Path
  /-- The entries to rename; those of the current directory if none are given. -/
  paths : List Path
  /-- The items are those of a timeline. -/
  timeline : Bool
  /-- A star is any run of characters, whatever the settings say. -/
  anySequence : Bool
  /-- Nothing is to be renamed. -/
  dryRun : Bool
  deriving DecidableEq, Repr

end Relabel.Run
