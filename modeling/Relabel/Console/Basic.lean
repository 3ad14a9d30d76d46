import Relabel.Console.LogFile
import Relabel.Run.Basic

/-!
# The program

The program as its user meets it: it reads the command line, opens the log, carries out the action
and ends with a code.

* `Console.output`, `Console.errors`, `Console.logText`: what the user sees of a journal.
* `Console.perform`: the program, once the command line has been read.
-/

namespace Relabel.Console

/-- The name of the program. -/
def programName : String := "namesmith"

/-! ## Journals -/

/-- The colour in which records are shown. -/
def color : Level → Nat
  | .error => 31
  | .warning => 33
  | .info | .debug => 37
  | .trace => 90

/-- A record in its colour. -/
def coloredLine (level : Level) (text : String) : String :=
  s!"\x1b[{color level}m{text}\x1b[0m\n"

/-- Records of the level go to the standard error. -/
def isDiagnostic (level : Level) : Bool := Level.warning.shows level

/-- What an entry adds to the standard output. -/
def outputOf (verbosity : Level) : Journal.Entry → String
  | .record level text =>
    if verbosity.shows level && !isDiagnostic level then coloredLine level text else ""
  | .printed text => text

/-- What an entry adds to the standard error. -/
def errorsOf (verbosity : Level) : Journal.Entry → String
  | .record level text =>
    if verbosity.shows level && isDiagnostic level then coloredLine level text else ""
  | .printed _ => ""

/-- The date and the time of day, as they stand before a record in the log. -/
def stamp (now : Moment) : String :=
  s!"{now.yearText}-{now.monthText}-{now.dayText}T{now.hourText}:{now.minuteText}:" ++
    Text.padNat 2 now.second

/-- What an entry adds to the log. -/
def logOf (verbosity : Level) (now : Moment) : Journal.Entry → String
  | .record level text =>
    if verbosity.shows level then s!"[{stamp now} {level.tag} {programName}] {text}\n" else ""
  | .printed _ => ""

/-- The standard output for a journal. -/
def output (verbosity : Level) (es : List Journal.Entry) : String :=
  String.join (es.map (outputOf verbosity))

/-- The standard error for a journal. -/
def errors (verbosity : Level) (es : List Journal.Entry) : String :=
  String.join (es.map (errorsOf verbosity))

/-- The log for a journal. -/
def logText (verbosity : Level) (now : Moment) (es : List Journal.Entry) : String :=
  String.join (es.map (logOf verbosity now))

/-! ## The program -/

/-- How the program ends. -/
structure Ending where
  code : Nat
  /-- Said on the standard error in the place of records, if there can be none. -/
  complaint : String
  deriving DecidableEq, Repr

/-- Carries out the action; the code tells whether all has gone well. -/
def carryOut [Find.Engine] (line : CommandLine) : Deed Nat := do
  match ← (Run.execute line.action line.options).run with
  | .ok s =>
    if 0 < s.renamed || 0 < s.failed then
      World.info s!"Renamed {s.renamed}, skipped {s.skipped}, failed {s.failed}"
    pure (if 0 < s.failed then 1 else 0)
  | .error e =>
    World.record .error e.report
    pure 1

/-- Finds and opens the log file; gives its path too. -/
def openLog (line : CommandLine) : Act (String × Option Nat) := do
  let path ← line.logPath
  pure (path, ← LogFile.open? path)

/-- Carries out a command line. -/
def perform [Find.Engine] (line : CommandLine) : Deed Ending := do
  match ← (openLog line).run with
  | .error e => pure ⟨1, e.message ++ "\n"⟩
  | .ok (path, node?) =>
    World.debug s!"Logger initialized with verbosity level: {line.verbosity.name}"
    if !path.isEmpty then World.debug s!"Logging to {path}"
    if line.assumeYes then modify fun w => { w with prompter := .fixed none true [] }
    let code ← carryOut line
    let w ← get
    LogFile.write node? (logText line.verbosity w.now w.journal)
    pure ⟨code, ""⟩

/-! ## Lines that are not carried out -/

/-- How the program is called. -/
def usage : String :=
  "Usage: namesmith [OPTIONS] [paths]... [COMMAND]\n\n" ++
  "Commands:\n" ++
  "  presets  Manage saved find and replace presets (list, save, delete)\n" ++
  "  tokens   List the tokens and wildcards available for a selection\n" ++
  "  help     Print this message\n\n" ++
  "Options:\n" ++
  "  -f, --find <find>          Find pattern (wildcards: * ? ^ $)\n" ++
  "  -r, --replace <replace>    Replace template, may contain tokens such as <YYYY> or <user>\n" ++
  "  -p, --preset <preset>      Start from a saved preset\n" ++
  "  -m, --manifest <manifest>  Rename the items listed in a YAML manifest instead of files\n" ++
  "  -t, --timeline             Treat the selection as a timeline (transitions are skipped)\n" ++
  "      --any-sequence         Treat * as 'any sequence of characters'\n" ++
  "  -n, --dry                  Preview the new names without renaming anything\n" ++
  "  -y, --yes                  Answer yes to every confirmation\n" ++
  "  -c, --config <config>      Read from a specific config file\n" ++
  "  -l, --log-file <log_file>  Name of the log file\n" ++
  "  -L, --log-locally          Write the log file to the current directory\n" ++
  "  -v, --verbose              Increase verbosity level (can be used multiple times)\n" ++
  "  -h, --help                 Print help\n" ++
  "  -V, --version              Print version\n"

/-- The fault of a line in words. -/
def complaintOf : CommandLine.Refusal → String
  | .unknownArgument => "unexpected argument"
  | .invalidValue => "a value is missing or empty"
  | .argumentConflict => "an option is given more than once"
  | .tooManyValues => "a value is given to an option that takes none"
  | .unknownCommand => "unrecognized subcommand"
  | .missingCommand => "a subcommand is required"
  | .missingArgument => "a required argument is missing"
  | .help | .version => ""

/-- The code with which a line that is not carried out ends the program. -/
def codeOf : CommandLine.Refusal → Nat
  | .help | .version => 0
  | _ => 2

/-- What a line that is not carried out adds to the standard output. -/
def replyTo : CommandLine.Refusal → String
  | .help => usage
  | .version => s!"{programName} {toolVersion}\n"
  | _ => ""

/-- What a line that is not carried out adds to the standard error. -/
def rebuke (r : CommandLine.Refusal) : String :=
  if codeOf r = 0 then "" else s!"error: {complaintOf r}\n\n{usage}"

end Relabel.Console
