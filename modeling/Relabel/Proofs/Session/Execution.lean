import Relabel.Session.Operations
import Relabel.Proofs.World.Execution

/-!
# Carrying out the operations of a session

What an operation on a session comes to, as a plain value: its answer, the session and the world
after it. Each operation has one equation, which later proofs use in the place of its definition.

* `SessionAct.on`: carries an operation on a session out.
* `Session.on_begin`: the start of a session.
* `Session.on_setFind` to `Session.on_cancel`: the operations on an open session.
-/

namespace Relabel

variable {α β : Type}

namespace SessionAct

/-- The answer of an operation on a session, the session and the world after it. -/
def on (m : SessionAct α) (s : Session) (w : World) : Except Error α × Session × World :=
  let r := Deed.on (m.runOn s) w
  (r.1.1, r.1.2, r.2)

@[simp] theorem on_pure (a : α) (s : Session) (w : World) :
    on (pure a) s w = (.ok a, s, w) := rfl

@[simp] theorem on_throw (e : Error) (s : Session) (w : World) :
    on (throw e : SessionAct α) s w = (.error e, s, w) := rfl

@[simp] theorem on_get (s : Session) (w : World) : on get s w = (.ok s, s, w) := rfl

@[simp] theorem on_set (s s' : Session) (w : World) : on (set s') s w = (.ok (), s', w) := rfl

@[simp] theorem on_modify (f : Session → Session) (s : Session) (w : World) :
    on (modify f) s w = (.ok (), f s, w) := rfl

@[simp] theorem on_deed (m : Deed α) (s : Session) (w : World) :
    on (deed m) s w = (.ok (Deed.on m w).1, s, (Deed.on m w).2) := rfl

/-- The second operation goes on with the session and the world that the first one has left. An
operation that fails does not take back what it has done to them. -/
theorem on_bind (m : SessionAct α) (f : α → SessionAct β) (s : Session) (w : World) :
    on (m >>= f) s w = match on m s w with
      | (.ok a, s', w') => on (f a) s' w'
      | (.error e, s', w') => (.error e, s', w') := by
  have h : on (m >>= f) s w =
    on (ExceptT.mk (ExceptT.bindCont (m := StateT Session Deed) f (on m s w).1))
      (on m s w).2.1 (on m s w).2.2 := rfl
  rw [h]
  obtain ⟨r, s', w'⟩ := on m s w
  cases r <;> rfl

/-- Two operations have come to an answer only if both of them have. -/
theorem bind_eq_ok {m : SessionAct α} {f : α → SessionAct β} {b : β}
    {s s' : Session} {w w' : World} (h : on (m >>= f) s w = (.ok b, s', w')) :
    ∃ a s₁ w₁, on m s w = (.ok a, s₁, w₁) ∧ on (f a) s₁ w₁ = (.ok b, s', w') := by
  rw [on_bind] at h
  generalize hm : on m s w = r at h
  obtain ⟨_ | a, s₁, w₁⟩ := r
  · cases h
  · exact ⟨a, s₁, w₁, rfl, h⟩

/-- What is made of the answer alone touches neither session nor world. -/
theorem on_bind_pure (m : SessionAct α) (f : α → β) (s : Session) (w : World) :
    (on (m >>= fun a => pure (f a)) s w).2 = (on m s w).2 := by
  rw [on_bind]
  obtain ⟨_ | _, s', w'⟩ := on m s w <;> rfl

@[simp] theorem on_get_bind (f : Session → SessionAct β) (s : Session) (w : World) :
    on (get >>= f) s w = on (f s) s w := rfl

@[simp] theorem on_set_bind (s' : Session) (f : PUnit → SessionAct β) (s : Session) (w : World) :
    on (set s' >>= f) s w = on (f ⟨⟩) s' w := rfl

@[simp] theorem on_modify_bind (g : Session → Session) (f : PUnit → SessionAct β) (s : Session)
    (w : World) : on (modify g >>= f) s w = on (f ⟨⟩) (g s) w := rfl

@[simp] theorem on_deed_bind (m : Deed α) (f : α → SessionAct β) (s : Session) (w : World) :
    on (deed m >>= f) s w = on (f (Deed.on m w).1) s (Deed.on m w).2 := rfl

@[simp] theorem on_ite (c : Prop) [Decidable c] (m n : SessionAct α) (s : Session) (w : World) :
    on (if c then m else n) s w = if c then on m s w else on n s w := by
  split <;> rfl

@[simp] theorem on_act (m : Act α) (s : Session) (w : World) :
    on (act m) s w = ((Act.on m w).1, s, (Act.on m w).2) := by
  unfold act
  rw [on_deed_bind, Act.on_run]
  obtain ⟨r, w'⟩ := Act.on m w
  cases r <;> rfl

end SessionAct

namespace Session

open SessionAct (deed act on_bind)

variable {s : Session} {w : World}

/-- The error of an operation on a session that has ended. -/
def closed (s : Session) : Error := .sessionClosed s.state.label

theorem on_ensureOpen (s : Session) (w : World) : ensureOpen.on s w =
    (if s.state.isFinal then .error s.closed else .ok (), s, w) := by
  unfold ensureOpen
  rw [SessionAct.on_get_bind]
  split <;> rfl

/-- An operation that asks for an open session does nothing with one that has ended. -/
theorem on_guarded_of_final (f : Unit → SessionAct α) (w : World) (h : s.state.isFinal = true) :
    (ensureOpen >>= f).on s w = (.error s.closed, s, w) := by
  rw [on_bind, on_ensureOpen, h]
  rfl

theorem on_guarded (f : Unit → SessionAct α) (w : World) (h : s.state.isFinal = false) :
    (ensureOpen >>= f).on s w = (f ()).on s w := by
  rw [on_bind, on_ensureOpen, h]
  rfl

/-! ## Fields -/

/-- An edit that fails leaves the session as it was. What has been found is said only after an edit.
-/
theorem on_adopt (edit : Session → Except Error Session) (s : Session) (w : World) :
    (adopt edit).on s w = match edit s with
      | .error e => (.error e, s, w)
      | .ok s' => (.ok (), s', { w with journal := w.journal ++ s'.findNote }) := by
  unfold adopt
  rw [SessionAct.on_get_bind]
  cases edit s <;> rfl

theorem on_setFind [Find.Engine] (text : String) (w : World) (h : s.state.isFinal = false) :
    (setFind text).on s w = (adopt (·.withFind text)).on s w :=
  on_guarded _ w h

theorem on_setReplace (text : String) (w : World) (h : s.state.isFinal = false) :
    (setReplace text).on s w = (.ok (), s.withReplace text, w) :=
  on_guarded _ w h

/-- A preset that does not exist is no error. -/
theorem on_selectPreset [Find.Engine] (name : String) (w : World) (h : s.state.isFinal = false) :
    (selectPreset name).on s w = match s.store.get? name with
      | none => (.ok false, s, (Deed.on (World.warn s!"No preset named {name}") w).2)
      | some p =>
        match s.withPreset p with
        | .error e => (.error e, s, w)
        | .ok s' => (.ok true, s', { w with journal := w.journal ++ s'.findNote }) := by
  unfold selectPreset
  rw [on_guarded _ w h, SessionAct.on_get_bind]
  cases s.store.get? name with
  | none => rfl
  | some p =>
    dsimp only
    rw [on_bind, loadPreset, on_adopt]
    cases s.withPreset p <;> rfl

/-! ## Presets -/

/-- The selection is given up if the file has no preset of that name. -/
theorem on_reloadPresets (w : World) (h : s.state.isFinal = false) :
    reloadPresets.on s w = match Act.on s.store.reload w with
      | (.error e, w') => (.error e, s, w')
      | (.ok store, w') =>
        (.ok (), { s with store, selected := s.selected.filter store.holds }, w') := by
  unfold reloadPresets
  rw [on_guarded _ w h, SessionAct.on_get_bind, on_bind, SessionAct.on_act]
  obtain ⟨r, w'⟩ := Act.on s.store.reload w
  cases r <;> rfl

/-- What the user is told when the store could not be saved. -/
def saveFault (store : Store) (e : Error) : Prompter → Reply Unit :=
  (·.notify "Error" s!"Check permissions on {store.path}: {e.message}")

theorem on_persist (s : Session) (w : World) :
    persist.on s w = match Act.on s.store.save w with
      | (.ok store, w') => (.ok true, { s with store }, w')
      | (.error e, w') => (.ok false, s, (Deed.on (World.ask (saveFault s.store e)) w').2) := by
  unfold persist
  rw [SessionAct.on_get_bind, SessionAct.on_deed_bind, Act.on_run]
  obtain ⟨r, w'⟩ := Act.on s.store.save w
  cases r <;> rfl

theorem on_storePreset (name : String) (edit : Store → Preset → Store) (s : Session) (w : World) :
    (storePreset name edit).on s w =
      let edited := edit s.store (s.asPreset name)
      match Act.on edited.save w with
      | (.ok store, w') => (.ok true, { s with store, selected := some name },
          (Deed.on (World.info s!"{name} preset saved to {store.path}") w').2)
      | (.error e, w') => (.ok false, { s with store := edited, selected := some name },
          (Deed.on (World.ask (saveFault edited e)) w').2) := by
  unfold storePreset
  rw [SessionAct.on_modify_bind, on_bind, on_persist]
  dsimp only
  obtain ⟨r, w'⟩ := Act.on (edit s.store (s.asPreset name)).save w
  cases r <;> rfl

/-- How often a user may be asked for the name of a preset. -/
def patience (w : World) : Nat := w.prompter.namesLeft + 1

/-- Whether the user lets a preset be overwritten. -/
def askOverwrite : Deed Bool := World.ask (·.confirm overwriteTitle overwriteMessage)

theorem on_savePreset (w : World) (h : s.state.isFinal = false) :
    savePreset.on s w = match Deed.on (askForName s.selected (patience w)) w with
      | (none, w') => (.ok .cancelled, s, w')
      | (some name, w') =>
        if s.store.holds name then
          match Deed.on askOverwrite w' with
          | (true, w') =>
            (storePreset name (fun store p => store.overwrite p) >>=
              fun persisted => pure (.overwritten name persisted)).on s w'
          | (false, w') =>
            (.ok (.declined name), s, (Deed.on (World.info s!"Kept existing preset {name}") w').2)
        else
          (storePreset name (fun store p => (store.add p).sort) >>=
            fun persisted => pure (.added name persisted)).on s w' := by
  unfold savePreset
  rw [on_guarded _ w h, SessionAct.on_get_bind, SessionAct.on_deed_bind, SessionAct.on_deed_bind,
    Deed.on_get, patience]
  obtain ⟨r, w'⟩ := Deed.on (askForName s.selected (w.prompter.namesLeft + 1)) w
  cases r with
  | none => rfl
  | some name =>
    dsimp only
    rw [SessionAct.on_ite, SessionAct.on_deed_bind, SessionAct.on_ite, askOverwrite]
    split
    · obtain ⟨r, w'⟩ := Deed.on (World.ask (·.confirm overwriteTitle overwriteMessage)) w'
      cases r <;> rfl
    · rfl

/-- Without a preset nothing is selected, and the fields stay as they are. -/
theorem on_loadFirst [Find.Engine] (s : Session) (w : World) :
    loadFirst.on s w = match s.store.presets with
      | [] => (.ok (), { s with selected := none }, w)
      | first :: _ => (loadPreset first).on s w := by
  unfold loadFirst
  rw [SessionAct.on_get_bind]
  cases s.store.presets <;> rfl

/-- Whether the user lets a preset be deleted. -/
def askDelete : Deed Bool := World.ask (·.confirm deleteTitle deleteMessage)

/-- Removes the presets of a name from a store, and says so. -/
def removeNamed (store : Store) (name : String) : Deed Store :=
  removeAll store (store.presets.filter (·.name == name))

/-- A deletion is written before another preset is loaded, so that an error of the second comes
after the first has been done. -/
theorem on_deletePreset [Find.Engine] (w : World) (h : s.state.isFinal = false) :
    deletePreset.on s w = match s.selected with
      | none => (.ok .nothingSelected, s, w)
      | some name =>
        match Deed.on askDelete w with
        | (false, w') => (.ok (.declined name), s, w')
        | (true, w') =>
          let (store, w') := Deed.on (removeNamed s.store name) w'
          match Act.on store.save w' with
          | (.error e, w') => (.ok (.deleted name false), s,
              (Deed.on (do
                World.ask (saveFault store e)
                World.warn s!"{name} preset kept, {s.store.path} was not written") w').2)
          | (.ok store, w') =>
            match Act.on store.reload w' with
            | (.error e, w') => (.error e, { s with store }, w')
            | (.ok store, w') =>
              (loadFirst >>= fun _ => pure (.deleted name true)).on { s with store } w' := by
  unfold deletePreset
  rw [on_guarded _ w h, SessionAct.on_get_bind, SessionAct.on_get_bind]
  cases hs : s.selected with
  | none => rfl
  | some name =>
    dsimp only
    rw [SessionAct.on_deed_bind, SessionAct.on_ite, askDelete]
    obtain ⟨r, w'⟩ := Deed.on (World.ask (·.confirm deleteTitle deleteMessage)) w
    cases r with
    | false => rfl
    | true =>
      rw [if_neg nofun, SessionAct.on_deed_bind, SessionAct.on_modify_bind, on_bind, on_persist]
      dsimp only [removeNamed]
      obtain ⟨r, w'⟩ := Act.on (Deed.on (removeAll s.store _) w').1.save _
      cases r with
      | error e => rfl
      | ok store =>
        dsimp only
        rw [if_pos rfl, SessionAct.on_get_bind, on_bind, SessionAct.on_act]
        obtain ⟨r, w'⟩ := Act.on store.reload w'
        cases r <;> simp only [hs]
        rfl

/-! ## Ends -/

/-- Gives the members of the selection their proposed names. -/
def renameMembers (s : Session) : Deed (List (Item × Outcome)) :=
  renameAll (s.selection.members.zip s.proposed)

/-- A session ends with its confirmation, whatever becomes of the single items. -/
theorem on_confirm (host : Host) (w : World) (h : s.state.isFinal = false) :
    (confirm host).on s w =
      let (done, w') := Deed.on s.renameMembers w
      (.ok (done.map Prod.snd),
        { s with
          selection := s.selection.withMembers (done.map Prod.fst)
          state := .confirmed },
        (Deed.on (do host.refresh; World.info "Done!") w').2) :=
  on_guarded _ w h

/-- A session that is cancelled proposes the names that its items have. -/
theorem on_cancel (w : World) (h : s.state.isFinal = false) :
    cancel.on s w = (.ok (), { s with proposed := s.names, state := .cancelled },
      (Deed.on (World.info "Cancelled!") w).2) :=
  on_guarded _ w h

/-! ## Start -/

/-- What is said when a session has started. -/
def startNote (s : Session) : String :=
  s!"Session started with {s.selection.size} item(s), state {s.state.label}"

/-- A session begins with its first preset, if it has one, and does not begin if that preset cannot
be loaded. -/
theorem on_begin [Find.Engine] (selection : Selection) (setting : Setting) (lookup : Lookup)
    (store : Store) (mode : Find.Mode) (w : World) :
    Act.on (begin selection setting lookup store mode) w =
      let s := blank selection setting lookup store mode
      let w := (Deed.on (World.tell (selection.members.flatMap lookup.complaints)) w).2
      match store.presets with
      | [] => (.ok s, (Deed.on (World.debug s.startNote) w).2)
      | first :: _ =>
        match (loadPreset first).on s w with
        | (.ok (), s, w) => (.ok s, (Deed.on (World.debug s.startNote) w).2)
        | (.error e, _, w) => (.error e, w) := by
  unfold begin
  rw [Act.on_bind, Act.on_lift]
  dsimp only
  generalize (Deed.on (World.tell (selection.members.flatMap lookup.complaints)) w).2 = w
  generalize blank selection setting lookup store mode = s
  cases store.presets with
  | nil => rfl
  | cons first _ =>
    dsimp only
    rw [Act.on_bind, Act.on_lift]
    unfold SessionAct.on
    obtain ⟨⟨r, s'⟩, w'⟩ := Deed.on ((loadPreset first).runOn s) w
    cases r <;> rfl

end Session
end Relabel
