import Relabel.Find.Pattern
import Relabel.Preset.Store
import Relabel.Session.Outcome
import Relabel.Session.Target
import Relabel.Token.Sanitize

/-!
# Sessions

A session is one run of find and replace over a selection. It keeps the proposed names up to date
with its two fields.

* `Session.withFind`, `Session.withReplace`, `Session.withPreset`: edits of the fields.
* `Session.preview`: the names with the proposed ones.
-/

namespace Relabel

/-- A run of find and replace over a selection. -/
structure Session where
  selection : Selection
  resolver : Resolver
  store : Store
  mode : Find.Mode
  find : String
  replace : String
  pattern : Find.Pattern
  /-- The replacement for each member of the selection. -/
  resolved : List String
  /-- The new name for each member of the selection. -/
  proposed : List String
  /-- The name of the preset that the fields were last taken from or saved under. -/
  selected : Option String
  state : Session.State

namespace Session

/-- A session whose fields are empty. -/
def blank (selection : Selection) (setting : Setting) (lookup : Lookup) (store : Store)
    (mode : Find.Mode) : Session :=
  let resolver := Resolver.ofSelection setting selection lookup
  { selection, resolver, store, mode
    find := ""
    replace := ""
    pattern := .empty mode
    resolved := resolver.resolveAll ""
    proposed := selection.names
    selected := none
    state := .idle }

/-- The current names. -/
def names (s : Session) : List String := s.selection.names

/-- Each name with the proposed one. -/
def preview (s : Session) : List (String × String) := s.names.zip s.proposed

/-! ## Edits -/

/-- The new names for given names and replacements. -/
def propose (pattern : Find.Pattern) (names resolved : List String) : List String :=
  if pattern.isEmpty then names else List.zipWith pattern.apply names resolved

/-- Computes the proposed names anew. -/
def refreshed (s : Session) : Session :=
  { s with proposed := propose s.pattern s.names s.resolved }

/-- The state that goes with the fields. -/
def openState (find replace : String) : State :=
  if find.isEmpty && replace.isEmpty then .idle else .previewing

/-- Takes the state that goes with the fields, unless the session has ended. -/
def settled (s : Session) : Session :=
  if s.state.isFinal then s else { s with state := openState s.find s.replace }

/-- Sets the find text. -/
def withFind [Find.Engine] (s : Session) (find : String) : Except Error Session := do
  let pattern ← Find.Pattern.compile find s.mode
  .ok { s with pattern, find }.refreshed.settled

/-- Sets the replace template, without its illegal characters. While nothing is to be found the
proposed names do not change. -/
def withReplace (s : Session) (replace : String) : Session :=
  let template := sanitize replace
  let s := { s with replace := template, resolved := s.resolver.resolveAll template }
  (if s.pattern.isEmpty then s else s.refreshed).settled

/-- Takes both fields from a preset and selects it. -/
def withPreset [Find.Engine] (s : Session) (p : Preset) : Except Error Session := do
  let s ← s.withFind p.find
  .ok { s.withReplace p.replace with selected := some p.name }

/-- What is said when the find text has been set. -/
def findNote (s : Session) : List Journal.Entry :=
  if s.pattern.isEmpty then []
  else [.record .debug s!"Compiled find '{s.find}' to '{s.pattern.source}'"]

end Session
end Relabel
