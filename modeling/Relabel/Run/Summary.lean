import Relabel.Disk.Path
import Relabel.Preset.Catalogue
import Relabel.Session.Outcome
import Relabel.Text
import Relabel.Token.Basic

/-!
# What a run shows and reports

* `Plan`: a proposed new name.
* `Summary`: what a run reports.
* `previewText`, `presetsText`, `tokensText`: what a run shows.
-/

namespace Relabel.Run

/-- A proposed new name. -/
structure Plan where
  old : String
  new : String
  deriving DecidableEq, Repr

/-- The name is to change. -/
def Plan.changes (p : Plan) : Bool := p.old != p.new

/-- How many names are to change. -/
def pending (plans : List Plan) : Nat := plans.countP Plan.changes

/-- What a run reports. -/
structure Summary where
  /-- Where the session has ended up, if there was one. -/
  state? : Option Session.State := none
  /-- How many items the selection had. -/
  selected : Nat := 0
  plans : List Plan := []
  outcomes : List Session.Outcome := []
  deriving DecidableEq, Repr

namespace Summary

def renamed (s : Summary) : Nat := s.outcomes.countP Session.Outcome.isRenamed

def skipped (s : Summary) : Nat := s.outcomes.countP Session.Outcome.isSkipped

def failed (s : Summary) : Nat := s.outcomes.countP Session.Outcome.isFailed

end Summary

/-! ## Texts -/

/-- One line of the preview. -/
def Plan.line (p : Plan) : String :=
  if p.changes then s!"  {p.old} -> {p.new}\n" else s!"  {p.old} (unchanged)\n"

/-- The preview; there is none of nothing. -/
def previewText (plans : List Plan) : String :=
  if plans.isEmpty then ""
  else "\nPlanned renames:\n================\n" ++ String.join (plans.map Plan.line) ++
    s!"\n  Items to be renamed: {pending plans} of {plans.length}\n"

/-- The presets of a catalogue, under the name of its file. -/
def presetsText (path : Path) (presets : List Preset) : String :=
  s!"Presets in {path}:\n" ++
    String.join (presets.map fun p => s!"  {p.name}: find '{p.find}' replace '{p.replace}'\n")

/-- A token with its placeholder and what it stands for. -/
def tokenLine (t : Token) : String :=
  s!"  {Text.padRight 14 t.label} {Text.padRight 16 t.placeholder} {t.text}\n"

/-- A wildcard with its name. -/
def wildcardLine (w : String × String) : String := s!"  {Text.padRight 14 w.1} {w.2}\n"

/-- The tokens and the wildcards. -/
def tokensText (tokens : List Token) (wildcards : List (String × String)) : String :=
  "Tokens:\n" ++ String.join (tokens.map tokenLine) ++
    "\nWildcards:\n" ++ String.join (wildcards.map wildcardLine)

end Relabel.Run
