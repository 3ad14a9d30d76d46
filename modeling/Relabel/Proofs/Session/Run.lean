import Mathlib.Logic.Relation
import Relabel.Proofs.Session.Deletion
import Relabel.Proofs.Session.Saving

/-!
# Runs of a session

A session is worked on by one operation after the other. Before each of them the world may change in
any way: files come and go, and the user changes their mind about what to answer.

* `Session.Operation`: what can be asked of a session, up to its end.
* `Session.play`: the session and the world after a number of operations.
* `Session.Edits`: what the operations can make of a session that stays open.
* `Session.edits_of_play`: a run that leaves a session open has made edits only.
* `Session.Reachable`: the sessions that the runs over a selection lead to.
-/

namespace Relabel.Session

variable [Find.Engine]

/-! ## Operations -/

/-- What can be asked of a session. -/
inductive Operation where
  | setFind (text : String)
  | setReplace (text : String)
  | selectPreset (name : String)
  | reloadPresets
  | savePreset
  | deletePreset
  | confirm (host : Host)
  | cancel
  deriving DecidableEq, Repr

/-- The session and the world after an operation, whatever its answer. -/
def Operation.perform : Operation → Session → World → Session × World
  | setFind text, s, w => ((Session.setFind text).on s w).2
  | setReplace text, s, w => ((Session.setReplace text).on s w).2
  | selectPreset name, s, w => ((Session.selectPreset name).on s w).2
  | reloadPresets, s, w => (Session.reloadPresets.on s w).2
  | savePreset, s, w => (Session.savePreset.on s w).2
  | deletePreset, s, w => (Session.deletePreset.on s w).2
  | confirm host, s, w => ((Session.confirm host).on s w).2
  | cancel, s, w => (Session.cancel.on s w).2

/-- The operation is to give the proposed names. -/
def Operation.isConfirm : Operation → Bool
  | confirm _ => true
  | _ => false

/-- The operation is to end the session. -/
def Operation.isEnd : Operation → Bool
  | confirm _ | cancel => true
  | _ => false

variable {s s' : Session} {w w' : World}

/-- Nothing can be done with a session that has ended. -/
theorem Operation.perform_of_final (o : Operation) (w : World) (h : s.state.isFinal = true) :
    o.perform s w = (s, w) := by
  cases o <;> exact congrArg Prod.snd (on_guarded_of_final _ w h)

/-! ## Edits -/

omit [Find.Engine] in
/-- Settling a session touches its state only. -/
theorem settled_eq (s : Session) : s.settled = { s with state := s.settled.state } := by
  unfold settled
  split <;> rfl

/-- The steps that operations on an open session are made of. -/
inductive Edit : Session → Session → Prop
  | find {s s' : Session} {text : String} : s.withFind text = .ok s' → Edit s s'
  | replace (s : Session) (text : String) : Edit s (s.withReplace text)
  | presets (s : Session) (store : Store) (selected : Option String) :
    Edit s { s with store, selected }

/-- Any number of edits. -/
abbrev Edits : Session → Session → Prop := Relation.ReflTransGen Edit

/-- Any other presets, and any other selection, come of edits. -/
theorem Edits.presets (s : Session) (store : Store) (selected : Option String) :
    Edits s { s with store, selected } :=
  .single (.presets s store selected)

theorem edits_of_withPreset {p : Preset} (h : s.withPreset p = .ok s') : Edits s s' := by
  unfold withPreset at h
  cases hf : s.withFind p.find with
  | error e => exact nomatch hf ▸ h
  | ok s₁ =>
    rw [hf] at h
    cases h
    refine .head (.find hf) (.head (.replace s₁ p.replace) ?_)
    exact Edits.presets _ (s₁.withReplace p.replace).store (some p.name)

theorem edits_loadPreset (p : Preset) (s : Session) (w : World) :
    Edits s ((loadPreset p).on s w).2.1 := by
  rw [loadPreset, on_adopt]
  cases h : s.withPreset p with
  | error e => exact .refl
  | ok s' => exact edits_of_withPreset h

theorem edits_setFind (text : String) (w : World) (h : s.state.isFinal = false) :
    Edits s ((setFind text).on s w).2.1 := by
  rw [on_setFind text w h, on_adopt]
  cases hf : s.withFind text with
  | error e => exact .refl
  | ok s' => exact .single (.find hf)

theorem edits_setReplace (text : String) (w : World) (h : s.state.isFinal = false) :
    Edits s ((setReplace text).on s w).2.1 := by
  rw [on_setReplace text w h]
  exact .single (.replace s text)

theorem edits_selectPreset (name : String) (w : World) (h : s.state.isFinal = false) :
    Edits s ((selectPreset name).on s w).2.1 := by
  rw [on_selectPreset name w h]
  cases s.store.get? name with
  | none => exact .refl
  | some p =>
    dsimp only
    cases hp : s.withPreset p with
    | error e => exact .refl
    | ok s' => exact edits_of_withPreset hp

theorem edits_reloadPresets (w : World) (h : s.state.isFinal = false) :
    Edits s (reloadPresets.on s w).2.1 := by
  rw [on_reloadPresets w h]
  obtain ⟨_ | store, w'⟩ := Act.on s.store.reload w
  · exact .refl
  · exact .presets ..

theorem edits_savePreset (w : World) (h : s.state.isFinal = false) :
    Edits s (savePreset.on s w).2.1 := by
  have hs := saving_savePreset w h
  generalize savePreset.on s w = r at hs
  cases hs with
  | cancelled | declined => exact .refl
  | written | unwritten => exact .presets ..

theorem edits_loadFirst (s : Session) (w : World) : Edits s (loadFirst.on s w).2.1 := by
  rw [on_loadFirst]
  split
  · exact .presets ..
  · exact edits_loadPreset ..

theorem edits_deletePreset (w : World) (h : s.state.isFinal = false) :
    Edits s (deletePreset.on s w).2.1 := by
  have hd := deletion_deletePreset w h
  generalize deletePreset.on s w = r at hd
  cases hd with
  | nothing | declined | unwritten => exact .refl
  | @written name w' =>
    rw [SessionAct.on_bind_pure loadFirst]
    exact (Edits.presets s (s.store.without name) s.selected).trans (edits_loadFirst _ w')

/-- Every operation that does not end a session edits it. -/
theorem Operation.edits {o : Operation} (ho : o.isEnd = false) (s : Session) (w : World) :
    Edits s (o.perform s w).1 := by
  cases h : s.state.isFinal with
  | true => exact o.perform_of_final w h ▸ .refl
  | false =>
    cases o with
    | setFind text => exact edits_setFind text w h
    | setReplace text => exact edits_setReplace text w h
    | selectPreset name => exact edits_selectPreset name w h
    | reloadPresets => exact edits_reloadPresets w h
    | savePreset => exact edits_savePreset w h
    | deletePreset => exact edits_deletePreset w h
    | confirm host => cases ho
    | cancel => cases ho

/-- An operation that is to end a session does end it. -/
theorem Operation.isFinal_of_isEnd {o : Operation} (ho : o.isEnd = true) (s : Session) (w : World) :
    (o.perform s w).1.state.isFinal = true := by
  cases h : s.state.isFinal with
  | true => rwa [o.perform_of_final w h]
  | false =>
    cases o with
    | confirm host =>
      rw [perform, on_confirm host w h]
      rfl
    | cancel =>
      rw [perform, on_cancel w h]
      rfl
    | _ => cases ho

/-- An operation makes edits or ends the session. -/
theorem Operation.edits_or_final (o : Operation) (s : Session) (w : World) :
    Edits s (o.perform s w).1 ∨ (o.perform s w).1.state.isFinal = true := by
  cases ho : o.isEnd with
  | true => exact .inr (o.isFinal_of_isEnd ho s w)
  | false => exact .inl (o.edits ho s w)

/-! ## Runs -/

/-- An operation, and what has become of the world before it. -/
structure Step where
  meanwhile : World → World
  operation : Operation

/-- The session and the world after a step. -/
def Step.take (t : Step) (r : Session × World) : Session × World :=
  t.operation.perform r.1 (t.meanwhile r.2)

/-- The session and the world after some steps. -/
def play (steps : List Step) (r : Session × World) : Session × World :=
  steps.foldl (fun r t => t.take r) r

@[simp] theorem play_nil (r : Session × World) : play [] r = r := rfl

@[simp] theorem play_cons (t : Step) (ts : List Step) (r : Session × World) :
    play (t :: ts) r = play ts (t.take r) := rfl

theorem play_append (ts us : List Step) (r : Session × World) :
    play (ts ++ us) r = play us (play ts r) :=
  List.foldl_append

theorem play_of_final (steps : List Step) {r : Session × World} (h : r.1.state.isFinal = true) :
    (play steps r).1 = r.1 := by
  induction steps generalizing r with
  | nil => rfl
  | cons t ts ih =>
    have ht : t.take r = (r.1, t.meanwhile r.2) := t.operation.perform_of_final _ h
    rw [play_cons, ht]
    exact ih h

/-- A run whose session is still open has only edited it. -/
theorem edits_of_play (steps : List Step) {r : Session × World}
    (h : (play steps r).1.state.isFinal = false) : Edits r.1 (play steps r).1 := by
  induction steps generalizing r with
  | nil => exact .refl
  | cons t ts ih =>
    rw [play_cons] at h ⊢
    refine .trans ?_ (ih h)
    rcases t.operation.edits_or_final r.1 (t.meanwhile r.2) with he | hf
    · exact he
    · -- A session that has ended would have stayed as it was up to the end of the run.
      have hf : (t.take r).1.state.isFinal = true := hf
      rw [play_of_final ts hf, hf] at h
      cases h

/-! ## Runs from the start -/

/-- A run over a selection, on some store and in some world, leads to the session. -/
def Reachable (selection : Selection) (setting : Setting) (lookup : Lookup) (mode : Find.Mode)
    (s : Session) : Prop :=
  ∃ store w s₀ w₀ steps, Act.on (begin selection setting lookup store mode) w = (.ok s₀, w₀) ∧
    (play steps (s₀, w₀)).1 = s

variable {selection : Selection} {setting : Setting} {lookup : Lookup} {store : Store}
  {mode : Find.Mode}

/-- A session begins with edits of a blank one. -/
theorem edits_of_begin (h : Act.on (begin selection setting lookup store mode) w = (.ok s, w')) :
    Edits (blank selection setting lookup store mode) s := by
  rw [on_begin] at h
  dsimp only at h
  split at h
  · cases h
    exact .refl
  · next first _ _ =>
    have hl := edits_loadPreset first (blank selection setting lookup store mode)
      (Deed.on (World.tell (selection.members.flatMap lookup.complaints)) w).2
    split at h
    · next heq =>
      cases h
      rwa [heq] at hl
    · cases h

/-- An open session comes of edits to a blank one. -/
theorem Reachable.edits (h : Reachable selection setting lookup mode s)
    (ho : s.state.isFinal = false) :
    ∃ store, Edits (blank selection setting lookup store mode) s := by
  obtain ⟨store, w, s₀, w₀, steps, hb, rfl⟩ := h
  exact ⟨store, (edits_of_begin hb).trans (edits_of_play steps ho)⟩

end Relabel.Session
