import Relabel.Disk.File
import Relabel.Error
import Relabel.Journal
import Relabel.Prompter
import Relabel.Token.Moment

/-!
# The world of a run

Everything outside the values that operations hand on: the file system, the environment, the clock,
the user and what the user has been told.

* `World`: the state of all that.
* `Change`: what a run does to the disk.
* `Act`: an operation that may change the world and may fail; what it has done stays done.
-/

namespace Relabel

/-- A request that changes files or directories. -/
inductive Change where
  | write (path : Path) (content : List UInt8)
  | makeFolders (path : Path)
  | rename (path target : Path)
  /-- Opens the log file, which is made if it is missing. -/
  | openLog (path : Path)
  /-- Writes at the end of the log file, wherever it is by now. -/
  | writeLog (content : List UInt8)
  deriving DecidableEq, Repr

/-- What surrounds a run. -/
structure World where
  disk : Disk
  /-- What has been done to the disk, in order. -/
  changes : List Change
  /-- The environment: names and values. -/
  environment : List (String × String)
  now : Moment
  prompter : Prompter
  /-- What the user has been told, in order. -/
  journal : List Journal.Entry
  /-- How often a host that keeps count has been asked to show items anew. -/
  refreshes : Nat
  deriving DecidableEq, Repr

/-- An operation in the world that cannot fail. -/
abbrev Deed := StateM World

/-- An operation in the world that can fail. -/
abbrev Act := ExceptT Error Deed

namespace World

/-- The value of a variable of the environment. -/
def lookupVariable (w : World) (name : String) : Option String := w.environment.lookup name

/-- Tells the user something. -/
def tell (es : List Journal.Entry) : Deed Unit :=
  modify fun w => { w with journal := w.journal ++ es }

def record (level : Level) (text : String) : Deed Unit := tell [.record level text]

def debug (text : String) : Deed Unit := record .debug text

def info (text : String) : Deed Unit := record .info text

def warn (text : String) : Deed Unit := record .warning text

/-- Prints a text as it is. -/
def print (text : String) : Deed Unit := tell [.printed text]

/-- Prints a line. -/
def printLine (text : String) : Deed Unit := print (text ++ "\n")

/-- Asks the prompter. -/
def ask {α : Type} (question : Prompter → Reply α) : Deed α := do
  let r := question (← get).prompter
  modify fun w => { w with prompter := r.prompter, journal := w.journal ++ r.entries }
  pure r.answer

/-- The file system as it is. -/
def getDisk : Deed Disk := do pure (← get).disk

/-- Takes the file system that a request has led to. -/
def setDisk (c : Change) (d : Disk) : Deed Unit :=
  modify fun w => { w with disk := d, changes := w.changes ++ [c] }

/-- Writes a text into a file. -/
def writeFile (path : Path) (text : String) : Act Unit := do
  let content := Utf8.encode text
  match (← getDisk).writeFile path content with
  | .ok d => setDisk (.write path content) d
  | .error e => throw (.persistence "write" path e.message)

/-- Makes a directory and the directories above it that are missing. -/
def makeFolders (path : Path) : Act Unit := do
  let (d, fault) := (← getDisk).makeFolders path
  setDisk (.makeFolders path) d
  match fault with
  | none => pure ()
  | some e => throw (.persistence "create directory" path e.message)

end World
end Relabel
