import Relabel.Proofs.Run.Opening

/-!
# Carrying out runs

A run that renames comes to a point where its session proposes names and they are shown. It is cut
in two there.

* `Run.preview`: a run up to that point.
* `Run.on_execute_rename`: a run goes on from its preview.
* `Run.on_offer_of_givenUp`, `Run.on_offer_of_agreed`: what becomes of the session from there.
-/

namespace Relabel.Run

variable {α : Type} {w w' : World}

/-! ## Sessions of a run -/

/-- What is done in a session fails where the session cannot start. -/
theorem on_inSession [Find.Engine] (setup : Setup) (items : List Item) (m : SessionAct α)
    (w : World) : Act.on (inSession setup items m) w =
      match Act.on (Session.start setup.target (.ofItems items) setup.setting setup.store
        setup.mode) w with
      | (.error e, w') => (.error e, w')
      | (.ok s, w') =>
        match m.on s w' with
        | (.error e, _, w') => (.error e, w')
        | (.ok a, s, w') => (.ok (a, s), w') := by
  unfold inSession
  rw [Act.on_bind]
  obtain ⟨_ | s, w'⟩ := Act.on (Session.start setup.target (.ofItems items) setup.setting
    setup.store setup.mode) w
  · rfl
  · dsimp only
    rw [Act.on_bind, Act.on_lift]
    unfold SessionAct.on
    obtain ⟨⟨r, s'⟩, w''⟩ := Deed.on (m.runOn s) w'
    cases r <;> rfl

/-! ## The preview -/

/-- A run that has come to its preview. -/
structure Preview where
  setup : Setup
  source : Source
  items : List Item
  session : Session

/-- A run up to its preview. -/
def preview [Find.Engine] (o : Options) : Act Preview := do
  let setup ← Setup.load o
  let (source, items) ← gather o
  match checkScope setup.target items with
  | .error e => throw e
  | .ok () =>
    let (_, session) ← inSession setup items (setFields o)
    pure { setup, source, items, session }

/-- A run from its preview on, given what has come of the question. -/
def finish (source : Source) (summary : Summary) (s : Session) : Act Summary := do
  if 0 < summary.renamed then source.update s.selection.items
  pure summary

/-- A run goes on from its preview. -/
theorem on_execute_rename [Find.Engine] (o : Options) (w : World) : Act.on (execute .rename o) w =
    match Act.on (preview o) w with
    | (.error e, w') => (.error e, w')
    | (.ok p, w') =>
      match (offer o).on p.session w' with
      | (.error e, _, w') => (.error e, w')
      | (.ok summary, s, w') => Act.on (finish p.source summary s) w' := by
  unfold execute preview
  rw [Act.on_bind, Act.on_bind]
  obtain ⟨_ | setup, w₁⟩ := Act.on (Setup.load o) w
  · rfl
  dsimp only
  unfold withItems
  rw [Act.on_bind, Act.on_bind]
  obtain ⟨_ | ⟨source, items⟩, w₂⟩ := Act.on (gather o) w₁
  · rfl
  dsimp only
  cases checkScope setup.target items with
  | error e => rfl
  | ok =>
    dsimp only
    rw [Act.on_bind, Act.on_bind, on_inSession, on_inSession]
    obtain ⟨_ | s, w₃⟩ := Act.on (Session.start setup.target (.ofItems items) setup.setting
      setup.store setup.mode) w₂
    · rfl
    dsimp only
    unfold rename
    rw [SessionAct.on_bind]
    obtain ⟨_ | _, s', w₄⟩ := (setFields o).on s w₃
    · rfl
    dsimp only
    rw [Act.on_pure]
    dsimp only
    obtain ⟨_ | _, s'', w₅⟩ := (offer o).on s' w₄ <;> rfl

theorem preview_eq_ok [Find.Engine] {o : Options} {p : Preview}
    (h : Act.on (preview o) w = (.ok p, w')) :
    ∃ w₁ w₂ w₃ s, Act.on (Setup.load o) w = (.ok p.setup, w₁) ∧
      Act.on (gather o) w₁ = (.ok (p.source, p.items), w₂) ∧
      Act.on (Session.start p.setup.target (.ofItems p.items) p.setup.setting p.setup.store
        p.setup.mode) w₂ = (.ok s, w₃) ∧
      (setFields o).on s w₃ = (.ok (), p.session, w') := by
  unfold preview at h
  obtain ⟨setup, w₁, hsetup, h⟩ := Act.bind_eq_ok h
  obtain ⟨⟨source, items⟩, w₂, hitems, h⟩ := Act.bind_eq_ok h
  dsimp only at h
  cases hscope : checkScope setup.target items with
  | error e =>
    rw [hscope] at h
    cases h
  | ok =>
    rw [hscope] at h
    obtain ⟨⟨_, session⟩, w₃, hsession, h⟩ := Act.bind_eq_ok h
    cases h
    rw [on_inSession] at hsession
    split at hsession
    · cases hsession
    next s w₃ hs =>
    split at hsession
    · cases hsession
    next hfields =>
    cases hsession
    exact ⟨w₁, w₂, w₃, s, hsetup, hitems, hs, hfields⟩

/-- Up to its preview a run only says something. -/
theorem quiet_preview [Find.Engine] (o : Options) : (preview o).Quiet := by
  unfold preview
  refine .bind (quiet_load o) fun setup => .bind (quiet_gather o) fun r => ?_
  obtain ⟨source, items⟩ := r
  dsimp only
  split
  · exact .throw _
  · exact .bind (quiet_inSession _ _ (quiet_setFields o)) fun _ => .pure _

/-! ## What becomes of a preview -/

variable {s : Session} {o : Options}

/-- The user wants the items to be renamed. -/
def agrees (s : Session) (w : World) : Bool :=
  (w.prompter.confirm renameTitle (renameMessage (plansOf s))).answer

/-- What a run reports whose proposed names have been given up. -/
def givenUp (s : Session) : Summary :=
  { state? := some .cancelled, selected := s.names.length, plans := plansOf s }

/-- What a run reports whose proposed names have been given to the items. -/
def confirmed (s : Session) (outcomes : List Session.Outcome) : Summary :=
  { givenUp s with state? := some .confirmed, outcomes }

theorem on_giveUp (plans : List Plan) (selected : Nat) (w : World) (h : s.state.isFinal = false) :
    (giveUp plans selected).on s w = (.ok { state? := some .cancelled, selected, plans },
      { s with proposed := s.names, state := .cancelled },
      (Deed.on (World.info "Cancelled!") w).2) := by
  unfold giveUp
  rw [SessionAct.on_bind, Session.on_cancel w h]
  rfl

/-- Nothing is done where names are given up. -/
theorem on_offer_of_givenUp (w : World) (h : s.state.isFinal = false)
    (hn : o.dryRun = true ∨ agrees s w = false) :
    ∃ s' w', (offer o).on s w = (.ok (givenUp s), s', w') ∧ w'.disk = w.disk ∧
      w'.changes = w.changes := by
  unfold offer
  rw [SessionAct.on_get_bind]
  dsimp only
  rw [SessionAct.on_deed_bind, SessionAct.on_ite]
  split
  · rw [SessionAct.on_bind, on_giveUp _ _ _ h]
    exact ⟨_, _, rfl, rfl, rfl⟩
  · next hd =>
    have hn : agrees s w = false := hn.resolve_left hd
    rw [SessionAct.on_deed_bind, SessionAct.on_ite]
    split
    · next ha =>
      unfold agrees at hn
      rw [World.on_ask] at ha
      exact absurd (hn.symm.trans ha) nofun
    · rw [on_giveUp _ _ _ h]
      exact ⟨_, _, rfl, rfl, rfl⟩

/-- Where the user agrees the session is confirmed. -/
theorem on_offer_of_agreed (w : World) (h : s.state.isFinal = false) (hd : o.dryRun = false)
    (ha : agrees s w = true) :
    ∃ w₁ w₂, (offer o).on s w =
        (.ok (confirmed s ((Deed.on s.renameMembers w₁).1.map Prod.snd)), { s with
          selection := s.selection.withMembers ((Deed.on s.renameMembers w₁).1.map Prod.fst)
          state := .confirmed }, w₂) ∧
      w₁.disk = w.disk ∧ w.Asks [] [.confirm renameTitle (renameMessage (plansOf s))] w₁ ∧
      w₂.disk = (Deed.on s.renameMembers w₁).2.disk ∧
      (Deed.on s.renameMembers w₁).2.Asks [] [] w₂ := by
  unfold offer
  rw [SessionAct.on_get_bind]
  dsimp only
  rw [SessionAct.on_deed_bind, SessionAct.on_ite, if_neg (by rw [hd]; nofun),
    SessionAct.on_deed_bind, SessionAct.on_ite]
  split
  · rw [SessionAct.on_bind, Session.on_confirm _ _ h]
    exact ⟨_, _, rfl, rfl, ⟨(List.append_nil _).symm, rfl⟩, rfl, .of_eq rfl rfl⟩
  · next hn =>
    rw [World.on_ask] at hn
    exact absurd ha hn

end Relabel.Run
