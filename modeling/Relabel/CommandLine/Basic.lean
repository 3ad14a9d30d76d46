import Relabel.CommandLine.Part
import Relabel.Journal
import Relabel.Run.Request

/-!
# Command lines

What a user asks for on the command line.

* `CommandLine.ofWords`: reads the words of a line.
-/

namespace Relabel

/-- What a user asks for. -/
structure CommandLine where
  action : Run.Action
  options : Run.Options
  /-- How much the user wants to see. -/
  verbosity : Level
  /-- Every question is answered by yes. -/
  assumeYes : Bool
  /-- The log file, empty if there is to be none. -/
  logFile : String
  /-- The log file is in the current directory. -/
  logLocally : Bool
  deriving DecidableEq, Repr

namespace CommandLine

/-- The name of the log file if the line gives none. -/
def defaultLogFile : String := "namesmith.log"

/-! ## Switches that count for the whole line -/

/-- The last part that holds a switch. -/
def lastWith (s : Switch) (parts : List Part) : Option Part := parts.reverse.find? (·.holds s)

/-- The switch is on the line. -/
def isGiven (s : Switch) (parts : List Part) : Bool := (lastWith s parts).isSome

/-- The value of a switch; of several the last part's counts. -/
def value? (s : Switch) (parts : List Part) : Option String :=
  (lastWith s parts).bind (·.value? s)

/-- How often a switch is given in the last part that holds it. -/
def count (s : Switch) (parts : List Part) : Nat :=
  ((lastWith s parts).map fun p => p.given.countP (·.1 == s)).getD 0

/-! ## The request -/

/-- The action that a part calls for. -/
def actionOf (p : Part) : Run.Action :=
  let name := p.operands.head?.getD ""
  match p.command with
  | .savePreset => .savePreset name ((p.value? .find).getD "") ((p.value? .replace).getD "")
  | .deletePreset => .deletePreset name
  | .listPresets | .presets => .listPresets
  | .tokens => .listTokens
  | .rename | .help => .rename

/-- The request that the parts of a line make: `first` is the first part and `parts` are all. -/
def ofParts (first : Part) (parts : List Part) : CommandLine :=
  let last := parts.getLast?.getD first
  { action := actionOf last
    options := {
      settings? := (value? .settings parts).map Path.ofString
      find? := first.value? .find
      replace? := first.value? .replace
      preset? := first.value? .preset
      manifest? := (value? .manifest parts).map Path.ofString
      paths := (if last.command = .tokens then last else first).operands.map Path.ofString
      timeline := isGiven .timeline parts
      anySequence := isGiven .anySequence parts
      dryRun := first.holds .dry }
    verbosity := Level.ofRequests (count .verbose parts)
    assumeYes := isGiven .yes parts
    logFile := (value? .logFile parts).getD defaultLogFile
    logLocally := isGiven .logLocally parts }

/-- Reads the words of a line. -/
def ofWords (words : List String) : Except Refusal CommandLine := do
  let parts ← (Part.start .rename).readAll words
  match parts with
  | first :: rest => .ok (ofParts first (first :: rest))
  | [] => .error .missingCommand

end CommandLine
end Relabel
