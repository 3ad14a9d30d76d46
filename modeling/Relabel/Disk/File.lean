import Relabel.Disk.Walk

/-!
# Files and directories

Reading and writing files, listing and making directories, and renaming entries. A request that is
refused leaves the file system as it was.

Permissions, full disks and writes that break off half-way are not modelled: every file that can be
read can be written (`Disk.writeFile_of_readText`), and a write either sets all bytes of a file or
none.
-/

namespace Relabel.Disk

/-! ## Files -/

/-- The bytes of a file. -/
def contentAt (d : Disk) (p : Path) : Except Fault (List UInt8) := do
  match ← d.place true p p.endsInSlash with
  | .folder _ => .error .isFolder
  | .entry _ _ none _ => .error .notFound
  | .entry _ _ (some i) slash =>
    match d.node? i with
    | some (.file content) => if slash then .error .notFolder else .ok content
    | _ => .error .isFolder

/-- The text of a file. -/
def readText (d : Disk) (p : Path) : Except Fault String := do
  match Utf8.text? (← d.contentAt p) with
  | some s => .ok s
  | none => .error .notText

/-- Sets the bytes of a file, given the old ones; a missing file is made. -/
def updateFile (d : Disk) (p : Path) (f : List UInt8 → List UInt8) : Except Fault Disk := do
  match ← d.place true p p.endsInSlash with
  | .folder _ => .error .isFolder
  | .entry _ _ _ true => .error .isFolder
  | .entry dir name none false => .ok (d.create dir name (.file (f [])))
  | .entry _ _ (some i) false =>
    match d.node? i with
    | some (.file content) => .ok (d.setNode i (.file (f content)))
    | _ => .error .isFolder

/-- Writes a file. -/
def writeFile (d : Disk) (p : Path) (content : List UInt8) : Except Fault Disk :=
  d.updateFile p fun _ => content

/-- Writes at the end of a file. -/
def appendFile (d : Disk) (p : Path) (content : List UInt8) : Except Fault Disk :=
  d.updateFile p (· ++ content)

/-! ## Directories -/

/-- The names in a directory. -/
def listFolder (d : Disk) (p : Path) : Except Fault (List FileName) := do
  match d.node? (← d.find true p) with
  | some (.folder _ es) => .ok (es.map Prod.fst)
  | _ => .error .notFolder

/-- Makes an entry where none is. -/
def makeEntry (d : Disk) (p : Path) (node : (dir : Nat) → Node) : Except Fault Disk := do
  match ← d.place false p false with
  | .entry dir name none _ => .ok (d.create dir name (node dir))
  | _ => .error .alreadyThere

/-- Makes a directory. -/
def makeFolder (d : Disk) (p : Path) : Except Fault Disk := d.makeEntry p (.folder · [])

/-- Makes a directory that may be there already. -/
def ensureFolder (d : Disk) (p : Path) : Except Fault Disk :=
  match d.makeFolder p with
  | .ok d => .ok d
  | .error e => if d.isFolderAt p then .ok d else .error e

/-- Makes a directory and the directories above it that are missing; `fuel` bounds their number.
What has been made before a fault stays. -/
def makeFoldersWithin (fuel : Nat) (d : Disk) (p : Path) : Disk × Option Fault :=
  if p.isEmpty then (d, none) else
    match d.makeFolder p with
    | .ok d => (d, none)
    | .error .notFound =>
      match fuel, p.parent? with
      | fuel + 1, some q =>
        match makeFoldersWithin fuel d q with
        | (d, some e) => (d, some e)
        | (d, none) =>
          match d.ensureFolder p with
          | .ok d => (d, none)
          | .error e => (d, some e)
      | _, _ => (d, some .noWholeTree)
    | .error e => (d, if d.isFolderAt p then none else some e)

/-- Makes a directory and the directories above it that are missing. -/
def makeFolders (d : Disk) (p : Path) : Disk × Option Fault :=
  d.makeFoldersWithin p.bytes.length p

/-! ## Entries -/

/-- `i` is the directory `j` or lies above it. -/
def isAbove (d : Disk) (i : Nat) : (fuel : Nat) → Nat → Bool
  | 0, _ => false
  | fuel + 1, j =>
    i == j ||
      match d.node? j with
      | some (.folder up _) => up != j && d.isAbove i fuel up
      | _ => false

/-- Lets the node `i` go from the entry `name` of `dir` to the entry `name'` of `dir'`. -/
def moveEntry (d : Disk) (i dir : Nat) (name : FileName) (dir' : Nat) (name' : FileName) : Disk :=
  let d := d.setEntries dir ((d.entries dir).erase name)
  let d := d.setEntries dir' ((d.entries dir').put name' i)
  match d.node? i with
  | some (.folder _ es) => d.setNode i (.folder dir' es)
  | _ => d

/-- Refuses to put the node `i` in the place of the node `j`. -/
def checkReplace (d : Disk) (i j : Nat) : Except Fault Unit :=
  if d.isFolder i then
    if !d.isFolder j then .error .notFolder
    else if !(d.entries j).isEmpty then .error .notEmpty
    else .ok ()
  else if d.isFolder j then .error .isFolder
  else .ok ()

/-- Renames an entry. What the new path led to is replaced, except that nothing happens when both
paths lead to the same node. -/
def rename (d : Disk) (p q : Path) : Except Fault Disk := do
  checkPath p
  checkPath q
  match ← d.place false p false with
  | .folder _ => .error .busy
  | .entry _ _ none _ => .error .notFound
  | .entry dir name (some i) _ =>
    match ← d.place false q false with
    | .folder _ => .error .busy
    | .entry dir' name' j _ =>
      if !d.isFolder i && (p.endsInSlash || q.endsInSlash) then .error .notFolder
      else if d.isFolder i && d.isAbove i d.nodes.length dir' then .error .invalid
      else if j = some i then .ok d
      else do
        match j with
        | some j => d.checkReplace i j
        | none => .ok ()
        .ok (d.moveEntry i dir name dir' name')

end Relabel.Disk
