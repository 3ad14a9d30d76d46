import Relabel.Console.Basic
import Std.Time

/-!
# The command

A run is carried out on a likeness of the disk, which holds what the run can meet. What it has done
there is then done on the disk itself.

* `Stock.addPath`, `Stock.addFile`: build the likeness.
* `Change.commit`: does on the disk what a run has done.
* `main`: the command.
-/

namespace Relabel

namespace Stock

/-! ## Directories -/

/-- A name that no entry has, for a file that links of no interest lead to. -/
def stubName : FileName := [0]

/-- A likeness that has taken in nothing yet. -/
def blank : Disk := Disk.blank.create Disk.root stubName (.file [])

/-- Where a link of no interest leads: to something of the same kind, or to nothing. -/
def stubTarget (entry : IO.FS.DirEntry) : IO Path := do
  try
    if (← entry.path.metadata).type matches .dir then pure ⟨[Path.slash]⟩
    else pure ⟨Path.slash :: stubName⟩
  catch _ => pure ⟨Path.slash :: stubName ++ stubName⟩

/-- The likeness of an entry without what it holds. -/
def nodeOf (up : Nat) (entry : IO.FS.DirEntry) : IO Node := do
  match (← entry.path.symlinkMetadata).type with
  | .dir => pure (.folder up [])
  | .symlink => pure (.link (← stubTarget entry))
  | _ => pure (.file [])

/-- Takes in the entries of the directory `i`, which is at the given path. -/
def addEntries (d : Disk) (i : Nat) (path : Path) : IO Disk := do
  let entries ← try (← IO.FS.realPath path.display).readDir catch _ => pure #[]
  entries.foldlM (fun d entry => do
    let name := Utf8.encode entry.fileName
    if ((d.entries i).get? name).isSome then pure d
    else pure (d.create i name (← nodeOf i entry))) d

/-- Takes in the entries of the directory at a path. -/
def addFolder (d : Disk) (path : Path) : IO Disk :=
  match d.find true path with
  | .ok i => if d.isFolder i then addEntries d i path else pure d
  | .error _ => pure d

/-! ## Ways -/

/-- The paths on the way to an absolute path, which comes last. -/
def ways (path : Path) : List Path :=
  (List.range (path.steps.length + 1)).map fun k => .ofSegments true (path.steps.take k)

/-- Takes in the directories on the way to a path without links. -/
def addWay (d : Disk) (path : Path) : IO Disk := (ways path).foldlM addFolder d

/-- Lets a link lead where it leads on the disk. -/
def mendLink (d : Disk) (path : Path) : IO Disk := do
  match (d.find false path).toOption with
  | none => pure d
  | some i =>
    match d.node? i with
    | some (.link _) =>
      try
        let target := Path.ofString (← IO.FS.realPath path.display).toString
        let d ← addWay d target
        pure (d.setNode i (.link target))
      catch _ => pure d
    | _ => pure d

/-- Takes in the directories on the way to an absolute path. -/
def addPath (d : Disk) (path : Path) : IO Disk :=
  (ways path).foldlM (fun d way => do addFolder (← mendLink d way) way) d

/-- Takes in the file at an absolute path with what it holds. -/
def addFile (d : Disk) (path : Path) : IO Disk := do
  let d ← addPath d path
  match (d.find true path).toOption with
  | none => pure d
  | some i =>
    match d.node? i with
    | some (.file _) =>
      try pure (d.setNode i (.file (← IO.FS.readBinFile path.display).toList))
      catch _ => pure d
    | _ => pure d

end Stock

/-! ## The world of a run -/

/-- The moment on the clock. -/
def Moment.current : IO Moment := do
  let t ← Std.Time.PlainDateTime.now
  pure ⟨t.year.toInt, t.month.toNat, t.day.toNat, t.hour.toNat, t.minute.toNat, t.second.toNat⟩

/-- Takes in the variables of the environment that have the given names. -/
def World.addVariables (w : World) (names : List String) : IO World := do
  let found ← names.filterMapM fun name => do pure ((← IO.getEnv name).map fun v => (name, v))
  pure { w with environment := w.environment ++ found }

/-- The paths that a line names, and the one of the settings. -/
def CommandLine.paths (line : CommandLine) (w : World) : List Path :=
  line.options.settings?.toList ++ line.options.manifest?.toList ++ line.options.paths ++
    (Settings.pathOf w Settings.fileName).toOption.toList ++
    (Settings.pathOf w line.logFile).toOption.toList ++ [.ofString line.logFile]

/-- The world of a run as far as the settings, and then as far as the run can meet it. -/
def CommandLine.world (line : CommandLine) : IO World := do
  let here := Path.ofString (← IO.currentDir).toString
  let disk ← Stock.addPath Stock.blank here
  let w : World := {
    disk := { disk with current := (disk.find true here).toOption.getD Disk.root }
    changes := []
    environment := []
    now := ← Moment.current
    prompter := .typist [] false
    journal := []
    refreshes := 0 }
  let w ← w.addVariables ["HOME", "XDG_CONFIG_HOME", "USER", "USERNAME"]
  let disk ← (line.paths w).foldlM (fun d p => Stock.addFile d (here.join p)) w.disk
  let w := { w with disk }
  match ((Settings.readOrDefault line.options.settings?).run.run w).1 with
  | .error _ => pure w
  | .ok settings =>
    let w ← w.addVariables (Expansion.names (settings.presetsFile?.getD ""))
    match settings.presetsPath w with
    | .error _ => pure w
    | .ok path => pure { w with disk := ← Stock.addFile w.disk (here.join path) }

/-! ## After a run -/

/-- Does on the disk what a run has done; hands on the log file. -/
def Change.commit (log : Option IO.FS.Handle) : Change → IO (Option IO.FS.Handle)
  | write path content => do
    IO.FS.writeBinFile path.display ⟨content.toArray⟩
    pure log
  | makeFolders path => do
    IO.FS.createDirAll path.display
    pure log
  | rename path target => do
    IO.FS.rename path.display target.display
    pure log
  | openLog path => do pure (some (← IO.FS.Handle.mk path.display .append))
  | writeLog content => do
    match log with
    | some handle => handle.write ⟨content.toArray⟩
    | none => pure ()
    pure log

/-- Shows the entries of a journal. -/
def Journal.display (verbosity : Level) (es : List Journal.Entry) : IO Unit := do
  for e in es do
    IO.print (Console.outputOf verbosity e)
    IO.eprint (Console.errorsOf verbosity e)
  (← IO.getStdout).flush

/-! ## Questions -/

attribute [local instance] Find.Engine.sized

/-- The run of a line with what the user types. -/
def CommandLine.result (line : CommandLine) (w : World) (typed : String) (atTerminal : Bool) :
    Console.Ending × World :=
  (Console.perform line).run { w with prompter := .typist (Utf8.encode typed) atTerminal }

/-- The entries that two journals begin with. -/
def Journal.common : List Journal.Entry → List Journal.Entry → List Journal.Entry
  | a :: as, b :: bs => if a = b then a :: common as bs else []
  | _, _ => []

/-- The run of a line at a terminal. What does not depend on the answer to a question is shown
before it; the number of entries shown is given too. -/
def CommandLine.converse (line : CommandLine) (w : World) :
    IO ((Console.Ending × World) × Nat) := do
  let yes := line.result w "yes\n" true
  let no := line.result w "no\n" true
  let shown := Journal.common yes.2.journal no.2.journal
  Journal.display line.verbosity shown
  if yes.2.journal = no.2.journal then pure (yes, shown.length)
  else pure (line.result w (← (← IO.getStdin).getLine) true, shown.length)

end Relabel

open Relabel

def main (args : List String) : IO UInt32 := do
  match CommandLine.ofWords args with
  | .error refusal =>
    IO.print (Console.replyTo refusal)
    IO.eprint (Console.rebuke refusal)
    pure (.ofNat (Console.codeOf refusal))
  | .ok line =>
    let w ← line.world
    let ((ending, w), shown) ←
      if ← (← IO.getStdin).isTty then line.converse w
      else pure (line.result w "" false, 0)
    let _ ← w.changes.foldlM Change.commit none
    IO.eprint ending.complaint
    Journal.display line.verbosity (w.journal.drop shown)
    pure (.ofNat ending.code)
