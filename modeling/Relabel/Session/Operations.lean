import Relabel.Session.Basic

/-!
# Operations of a session

What a host and a user do with a session, up to its end: editing the fields, working on the presets,
and giving the proposed names or giving them up. An operation on a session that has ended is an
error and does nothing.

* `SessionAct`: an operation on a session.
* `Session.start`: a session over a selection.
* `Session.confirm`, `Session.cancel`: the two ends.
-/

namespace Relabel

/-- An operation on a session, in the world, that can fail; what it has done stays done. -/
abbrev SessionAct := ExceptT Error (StateT Session Deed)

namespace SessionAct

/-- Does something in the world. -/
def deed {α : Type} (m : Deed α) : SessionAct α := ExceptT.lift (StateT.lift m)

/-- Does something in the world that can fail. -/
def act {α : Type} (m : Act α) : SessionAct α := do
  match ← deed m.run with
  | .ok a => pure a
  | .error e => throw e

/-- Runs an operation on a session. -/
def runOn {α : Type} (m : SessionAct α) (s : Session) : Deed (Except Error α × Session) :=
  m.run.run s

end SessionAct

namespace Session

open SessionAct (deed act)

variable [Find.Engine]

/-- Refuses to go on with a session that has ended. -/
def ensureOpen : SessionAct Unit := do
  let s ← get
  if s.state.isFinal then throw (.sessionClosed s.state.label)

/-! ## Fields -/

/-- Makes an edit that sets the find text, and says so. -/
def adopt (edit : Session → Except Error Session) : SessionAct Unit := do
  match edit (← get) with
  | .error e => throw e
  | .ok s =>
    set s
    deed (World.tell s.findNote)

def setFind (find : String) : SessionAct Unit := do
  ensureOpen
  adopt (·.withFind find)

def setReplace (replace : String) : SessionAct Unit := do
  ensureOpen
  modify (·.withReplace replace)

/-- Takes the fields from a preset. -/
def loadPreset (p : Preset) : SessionAct Unit := adopt (·.withPreset p)

/-- Takes the fields from the first preset of a name; tells whether there is one. -/
def selectPreset (name : String) : SessionAct Bool := do
  ensureOpen
  match (← get).store.get? name with
  | some p =>
    loadPreset p
    pure true
  | none =>
    deed (World.warn s!"No preset named {name}")
    pure false

/-! ## Start -/

/-- Starts a session with a look-up. If there are presets the fields are taken from the first. -/
def begin (selection : Selection) (setting : Setting) (lookup : Lookup) (store : Store)
    (mode : Find.Mode) : Act Session := do
  World.tell (selection.members.flatMap lookup.complaints)
  let s := blank selection setting lookup store mode
  let s ← match store.presets with
    | [] => pure s
    | first :: _ =>
      match ← (loadPreset first).runOn s with
      | (.ok (), s) => pure s
      | (.error e, _) => throw e
  World.debug s!"Session started with {s.selection.size} item(s), state {s.state.label}"
  pure s

/-- Leaves out the items of some kinds, one kind after the other. -/
def leaveOut (selection : Selection) : List Kind → Deed Selection
  | [] => pure selection
  | k :: ks => do leaveOut (← selection.filterKind k) ks

/-- Starts a session at a target. -/
def start (target : Target) (selection : Selection) (setting : Setting) (store : Store)
    (mode : Find.Mode) : Act Session := do
  let selection ← leaveOut selection target.leftOut
  World.info s!"{toolTitle} v{toolVersion}"
  begin selection setting target.lookup store mode

/-! ## Presets -/

/-- Reads the preset file again and drops all edits of the store. -/
def reloadPresets : SessionAct Unit := do
  ensureOpen
  let store ← act (← get).store.reload
  modify fun s => { s with
    store
    selected := s.selected.filter store.holds }

/-- Saves the store; tells the user if that fails, and tells whether it worked. -/
def persist : SessionAct Bool := do
  let s ← get
  match ← deed s.store.save.run with
  | .ok store =>
    set { s with store }
    pure true
  | .error e =>
    deed (World.ask (·.notify "Error" s!"Check permissions on {s.store.path}: {e.message}"))
    pure false

/-- Asks for the name of a preset until it is not blank or there is none, at most `fuel` times. -/
def askForName (offered : Option String) : (fuel : Nat) → Deed (Option String)
  | 0 => pure none
  | fuel + 1 => do
    match ← World.ask (·.askName offered) with
    | none => pure none
    | some name =>
      if Text.isBlankText name then do
        let e : Error := .validation "preset name" "must not be empty"
        World.ask (·.notify "Invalid Preset Name" e.message)
        askForName offered fuel
      else pure (some name)

/-- The title of the question before a preset is overwritten. -/
def overwriteTitle : String := "Overwrite Existing Preset"

def overwriteMessage : String :=
  "Are you sure want to permanently overwrite this preset? This operation cannot be undone."

/-- The preset that the fields make under a name. -/
def asPreset (s : Session) (name : String) : Preset := ⟨name, s.find, s.replace⟩

/-- Puts the fields into the store under a name, saves the store and selects the preset. -/
def storePreset (name : String) (edit : Store → Preset → Store) : SessionAct Bool := do
  modify fun s => { s with store := edit s.store (s.asPreset name) }
  let persisted ← persist
  if persisted then
    deed (World.info s!"{name} preset saved to {(← get).store.path}")
  modify fun s => { s with selected := some name }
  pure persisted

/-- Saves the fields as a preset, whose name the user is asked for. -/
def savePreset : SessionAct SaveOutcome := do
  ensureOpen
  let s ← get
  let fuel := (← deed get).prompter.namesLeft + 1
  match ← deed (askForName s.selected fuel) with
  | none => pure .cancelled
  | some name =>
    if s.store.holds name then
      if ← deed (World.ask (·.confirm overwriteTitle overwriteMessage)) then
        pure (.overwritten name (← storePreset name fun store p => store.overwrite p))
      else
        deed (World.info s!"Kept existing preset {name}")
        pure (.declined name)
    else
      pure (.added name (← storePreset name fun store p => (store.add p).sort))

/-- The title of the question before a preset is deleted. -/
def deleteTitle : String := "Confirm Operation"

def deleteMessage : String :=
  "Are you sure want to permanently delete this preset? This operation cannot be undone."

/-- Removes presets from the store, one after the other, and says so. -/
def removeAll (store : Store) : List Preset → Deed Store
  | [] => pure store
  | p :: ps => do
    World.tell (store.deletionNote p)
    removeAll (store.delete p) ps

/-- Takes the fields from the first preset of the store, if there is one. -/
def loadFirst : SessionAct Unit := do
  match (← get).store.presets with
  | first :: _ => loadPreset first
  | [] => modify fun s => { s with selected := none }

/-- Deletes the selected preset, and takes the fields from the first one that is left. If the file
cannot be written the preset is put back. -/
def deletePreset : SessionAct DeleteOutcome := do
  ensureOpen
  let before := (← get).store
  match (← get).selected with
  | none => pure .nothingSelected
  | some name =>
    if !(← deed (World.ask (·.confirm deleteTitle deleteMessage))) then pure (.declined name)
    else
      let store ← deed (removeAll before (before.presets.filter (·.name == name)))
      modify fun s => { s with store }
      if ← persist then
        let store ← act (← get).store.reload
        modify fun s => { s with store }
        loadFirst
        pure (.deleted name true)
      else
        deed (World.warn s!"{name} preset kept, {before.path} was not written")
        modify fun s => { s with store := before }
        pure (.deleted name false)

/-! ## Ends -/

/-- Who shows the items anew once they have new names. -/
inductive Host where
  /-- Has nothing to show, and says so. -/
  | silent
  /-- Keeps count. -/
  | counting
  deriving DecidableEq, Repr

/-- Asks a host to show the items anew. -/
def Host.refresh : Host → Deed Unit
  | silent => World.debug "Refresh requested"
  | counting => modify fun w => { w with refreshes := w.refreshes + 1 }

/-- Gives one item its new name. -/
def renameItem (item : Item) (new : String) : Deed (Item × Outcome) := do
  let old := item.name
  if old = new then
    World.info s!"Skipping {old}. No change to name."
    pure (item, .skipped old)
  else
    match ← (item.rename new).run with
    | .ok item =>
      World.info s!"Renamed {old} to {new}"
      pure (item, .renamed old new)
    | .error e =>
      World.record .error s!"Failed to rename {old} to {new}: {e.message}"
      pure (item, .failed old new e.message)

/-- Gives items their new names, one after the other. -/
def renameAll : List (Item × String) → Deed (List (Item × Outcome))
  | [] => pure []
  | (item, new) :: rest => do
    let r ← renameItem item new
    pure (r :: (← renameAll rest))

/-- Gives all members of the selection their proposed names. -/
def confirm (host : Host) : SessionAct (List Outcome) := do
  ensureOpen
  let s ← get
  let done ← deed (renameAll (s.selection.members.zip s.proposed))
  set { s with selection := s.selection.withMembers (done.map Prod.fst), state := .confirmed }
  deed host.refresh
  deed (World.info "Done!")
  pure (done.map Prod.snd)

/-- Gives up the proposed names. -/
def cancel : SessionAct Unit := do
  ensureOpen
  modify fun s => { s with proposed := s.names, state := .cancelled }
  deed (World.info "Cancelled!")

end Session
end Relabel
