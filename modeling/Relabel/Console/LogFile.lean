import Relabel.CommandLine.Basic
import Relabel.Settings.Folder

/-!
# The log file

Where the records of a run go besides the console.

* `CommandLine.logPath`: the path of the log file.
* `LogFile.open?`, `LogFile.write`: the traffic with it.
-/

namespace Relabel

/-- The path of the log file, empty if there is to be none. Unless the file is in the current
directory it is in the program's, which is made if it is missing. -/
def CommandLine.logPath (line : CommandLine) : Act String := do
  if line.logFile.isEmpty || line.logLocally then pure line.logFile
  else
    match Settings.folder (← get) with
    | .error e => throw e
    | .ok folder =>
      if !(← World.getDisk).pathExists folder then World.makeFolders folder
      pure (folder.join (.ofString line.logFile)).display

namespace LogFile

/-- The number of a log file's node, which is made if it is missing. -/
def nodeAt (d : Disk) (path : Path) : Except Disk.Fault (Disk × Nat) := do
  let d ← d.appendFile path []
  .ok (d, ← d.find true path)

/-- Opens the log file at a path; there is none at the empty path. -/
def open? (path : String) : Act (Option Nat) := do
  if path.isEmpty then pure none
  else
    let path := Path.ofString path
    match nodeAt (← World.getDisk) path with
    | .error e => throw (.generic s!"Failed to initialise logging: {e.message}")
    | .ok (d, i) =>
      World.setDisk (.openLog path) d
      pure (some i)

/-- The disk after something has been written at the end of the file of a node. -/
def appendTo (d : Disk) (i : Nat) (content : List UInt8) : Disk :=
  match d.node? i with
  | some (.file old) => d.setNode i (.file (old ++ content))
  | _ => d

/-- Writes at the end of the open log file. -/
def write (node? : Option Nat) (text : String) : Deed Unit := do
  match node? with
  | none => pure ()
  | some i =>
    let content := Utf8.encode text
    World.setDisk (.writeLog content) (appendTo (← World.getDisk) i content)

end LogFile
end Relabel
