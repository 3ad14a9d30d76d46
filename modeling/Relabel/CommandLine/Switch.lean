/-!
# Switches and commands

The words of the command line.

* `Switch`: what begins with a hyphen, with its letter and its name.
* `Command`: the commands, and which switches and operands each of them takes.
-/

namespace Relabel.CommandLine

/-! ## Switches -/

/-- What begins with a hyphen. -/
inductive Switch where
  | find
  | replace
  | preset
  | manifest
  | timeline
  | anySequence
  | dry
  | yes
  | settings
  | logFile
  | logLocally
  | verbose
  | help
  | version
  deriving DecidableEq, Repr

namespace Switch

/-- Every switch. -/
def all : List Switch :=
  [find, replace, preset, manifest, timeline, anySequence, dry, yes, settings, logFile, logLocally,
    verbose, help, version]

theorem mem_all (s : Switch) : s ∈ all := by cases s <;> decide

/-- The letter behind one hyphen. -/
def letter? : Switch → Option Char
  | find => some 'f'
  | replace => some 'r'
  | preset => some 'p'
  | manifest => some 'm'
  | timeline => some 't'
  | anySequence => none
  | dry => some 'n'
  | yes => some 'y'
  | settings => some 'c'
  | logFile => some 'l'
  | logLocally => some 'L'
  | verbose => some 'v'
  | help => some 'h'
  | version => some 'V'

/-- The name behind two hyphens. -/
def name : Switch → String
  | find => "find"
  | replace => "replace"
  | preset => "preset"
  | manifest => "manifest"
  | timeline => "timeline"
  | anySequence => "any-sequence"
  | dry => "dry"
  | yes => "yes"
  | settings => "config"
  | logFile => "log-file"
  | logLocally => "log-locally"
  | verbose => "verbose"
  | help => "help"
  | version => "version"

/-- A value comes with the switch. -/
def takesValue : Switch → Bool
  | find | replace | preset | manifest | settings | logFile => true
  | _ => false

/-- The value is a path, which must not be empty. -/
def isPath : Switch → Bool
  | manifest | settings => true
  | _ => false

/-- The switch may be given behind any command, and counts for the whole line. -/
def isGlobal : Switch → Bool
  | manifest | timeline | anySequence | yes | settings | logFile | logLocally | verbose => true
  | _ => false

/-- The switch may be given again. -/
def isRepeatable (s : Switch) : Bool := s == verbose

end Switch

/-! ## Commands -/

/-- What operands a command takes. -/
inductive Operands where
  | none
  /-- A name, which must be given. -/
  | name
  /-- Any number of paths. -/
  | paths
  deriving DecidableEq, Repr

/-- A command of the line; `rename` is what the line as a whole asks for. -/
inductive Command where
  | rename
  | presets
  | listPresets
  | savePreset
  | deletePreset
  | tokens
  /-- Help for the commands that follow. -/
  | help
  deriving DecidableEq, Repr

namespace Command

/-- The commands that may follow, with their words. -/
def next : Command → List (String × Command)
  | rename => [("presets", presets), ("tokens", tokens), ("help", help)]
  | presets =>
    [("list", listPresets), ("save", savePreset), ("delete", deletePreset), ("help", help)]
  | _ => []

/-- One of the commands that may follow has to. -/
def isOpen (c : Command) : Bool := c == presets

/-- The switches that belong to a command alone. -/
def ownSwitches : Command → List Switch
  | rename => [.find, .replace, .preset, .dry, .version]
  | savePreset => [.find, .replace]
  | _ => []

/-- The switch may be given behind the command. -/
def takes (c : Command) (s : Switch) : Bool :=
  s.isGlobal || s == .help || c.ownSwitches.contains s

/-- The switch of a letter. -/
def ofLetter? (c : Command) (letter : Char) : Option Switch :=
  Switch.all.find? fun s => c.takes s && s.letter? == some letter

/-- The switch of a name. -/
def ofName? (c : Command) (name : String) : Option Switch :=
  Switch.all.find? fun s => c.takes s && s.name == name

def operands : Command → Operands
  | rename | tokens => .paths
  | savePreset | deletePreset => .name
  | _ => .none

end Command
end Relabel.CommandLine
