import Relabel.World

/-!
# The directory of the settings

The program keeps its files in a directory of its own, below the directory for the settings of all
programs.
-/

namespace Relabel.Settings

/-- The name of the program's directory. -/
def folderName : String := "find-and-replace-in-name-advance"

/-- The user's home. -/
def home? (w : World) : Option String := (w.lookupVariable "HOME").filter (! ·.isEmpty)

/-- The directory for the settings of all programs, given the user's home. -/
def sharedFolder (w : World) (home : String) : Path :=
  match (w.lookupVariable "XDG_CONFIG_HOME").map Path.ofString with
  | some p => if p.isAbsolute then p else (Path.ofString home).join (.ofString ".config")
  | none => (Path.ofString home).join (.ofString ".config")

/-- The program's directory. -/
def folder (w : World) : Except Error Path :=
  match home? w with
  | some home => .ok ((sharedFolder w home).join (.ofString folderName))
  | none => .error (.generic "Failed to determine project directories")

/-- The path of a file in the program's directory. -/
def pathOf (w : World) (file : String) : Except Error Path := do
  .ok ((← folder w).join (.ofString file))

end Relabel.Settings
