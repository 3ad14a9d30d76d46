import Relabel.Run.Gather
import Relabel.Run.Setup
import Relabel.Run.Summary
import Relabel.Session.Operations

/-!
# Runs

A run carries out one action: it reads the settings and the presets, gathers the items, and does
its work in a session over them.

* `Run.execute`: carries out an action.
-/

namespace Relabel.Run

open SessionAct (deed)

variable [Find.Engine]

/-! ## Sessions of a run -/

/-- Does something in a session over items. -/
def inSession {α : Type} (setup : Setup) (items : List Item) (m : SessionAct α) :
    Act (α × Session) := do
  let s ← Session.start setup.target (.ofItems items) setup.setting setup.store setup.mode
  match ← m.runOn s with
  | (.ok a, s) => pure (a, s)
  | (.error e, _) => throw e

/-- Does something in a session over the items that the options ask for. A manifest is written
if the summary tells of items that have been renamed. -/
def withItems (setup : Setup) (o : Options) (m : SessionAct Summary) : Act Summary := do
  let (source, items) ← gather o
  match checkScope setup.target items with
  | .error e => throw e
  | .ok () =>
    let (summary, s) ← inSession setup items m
    if 0 < summary.renamed then source.update s.selection.items
    pure summary

/-! ## Renaming -/

/-- Takes the fields from the preset of a name, which must be there. -/
def usePreset (name : String) : SessionAct Unit := do
  if !(← Session.selectPreset name) then throw (.run s!"No preset named {name}")

/-- Sets the fields as the options ask. -/
def setFields (o : Options) : SessionAct Unit := do
  o.preset?.forM usePreset
  o.find?.forM Session.setFind
  o.replace?.forM Session.setReplace

/-- The proposed new names. -/
def plansOf (s : Session) : List Plan := s.preview.map fun p => ⟨p.1, p.2⟩

/-- Gives up the proposed names. -/
def giveUp (plans : List Plan) (selected : Nat) : SessionAct Summary := do
  Session.cancel
  pure { state? := some (← get).state, selected, plans }

/-- The title of the question before items are renamed. -/
def renameTitle : String := "Find and Replace"

def renameMessage (plans : List Plan) : String := s!"Rename {pending plans} item(s)?"

/-- What is shown before the user is asked. -/
def notices (s : Session) : List Journal.Entry :=
  (if (plansOf s).isEmpty then [] else [.printed (previewText (plansOf s))]) ++
    (if s.names.length = 0 then [.record .info "Nothing selected"] else []) ++
    (if s.find.isEmpty then [.record .warning "Find is empty, no name will change"] else [])

/-- Shows the proposed names, and renames the items if the user agrees. -/
def offer (o : Options) : SessionAct Summary := do
  let s ← get
  let selected := s.names.length
  let plans := plansOf s
  deed (World.tell (notices s))
  if o.dryRun then
    let summary ← giveUp plans selected
    deed (World.printLine "\nRun without --dry flag to rename these items.")
    pure summary
  else if ← deed (World.ask (·.confirm renameTitle (renameMessage plans))) then
    let outcomes ← Session.confirm .silent
    pure { state? := some (← get).state, selected, plans, outcomes }
  else giveUp plans selected

/-- Proposes names as the options ask, and renames the items if the user agrees. -/
def rename (o : Options) : SessionAct Summary := do
  setFields o
  offer o

/-! ## Presets -/

/-- Shows the presets. -/
def listPresets (store : Store) : Deed Unit :=
  if store.presets.isEmpty then World.info s!"No presets saved in {store.path}"
  else World.print (presetsText store.path store.presets)

/-- Saves a preset. The name is at hand; all other questions go to the user. -/
def savePreset (name find replace : String) : SessionAct Summary := do
  Session.setFind find
  Session.setReplace replace
  deed (modify fun w => { w with prompter := .named (some name) w.prompter })
  let outcome ← Session.savePreset
  deed (modify fun w => { w with prompter := w.prompter.behind })
  let s ← get
  match outcome with
  | .added _ false | .overwritten _ false =>
    throw (.run s!"Preset {name} could not be written to {s.store.path}")
  | .declined name => deed (World.info s!"Preset {name} left unchanged")
  | _ => pure ()
  pure { state? := some s.state }

/-- Deletes a preset. -/
def deletePreset (name : String) : SessionAct Summary := do
  usePreset name
  let outcome ← Session.deletePreset
  let s ← get
  match outcome with
  | .deleted _ false => throw (.run s!"Preset {name} could not be deleted from {s.store.path}")
  | .declined name => deed (World.info s!"Preset {name} kept")
  | _ => pure ()
  pure { state? := some s.state }

/-! ## Tokens -/

/-- Shows the tokens and the wildcards. -/
def listTokens : SessionAct Summary := do
  let s ← get
  deed (World.print (tokensText s.resolver.offered Find.legend))
  pure { state? := some s.state }

/-! ## Actions -/

/-- Carries out an action. -/
def execute (action : Action) (o : Options) : Act Summary := do
  let setup ← Setup.load o
  match action with
  | .rename => withItems setup o (rename o)
  | .listPresets =>
    listPresets setup.store
    pure {}
  | .savePreset name find replace => do
    pure (← inSession setup [] (savePreset name find replace)).1
  | .deletePreset name => do pure (← inSession setup [] (deletePreset name)).1
  | .listTokens => withItems setup o listTokens

end Relabel.Run
