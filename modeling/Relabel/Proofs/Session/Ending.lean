import Relabel.Proofs.Session.Consistency
import Relabel.Proofs.Session.Turn

/-!
# The end of a session

Only a confirmation gives items other names and asks the host to show them anew. It ends the
session, as giving up does, and nothing can be done with a session that has ended. So there is one
confirmation at most in whatever is done with a session.

* `Session.Step.confirms`, `Session.Step.ends`: the steps that end a session.
* `Session.confirmations`, `Session.refreshings`: how often a run has confirmed the session and has
  asked a host to show items anew.
* `Session.renames_in_one_confirmation`: what holds of every run.
-/

namespace Relabel.Session

variable {s s' : Session} {w w' : World} {r : Session × World}

/-! ## Requests to the host -/

theorem requests_rename (item : Item) (new : String) (w : World) :
    (Act.on (item.rename new) w).2.requests = w.requests := by
  cases item with
  | listed name kind context locked => cases locked <;> rfl
  | onDisk path kind =>
    rw [Item.rename, Item.on_move]
    split
    · rfl
    split
    · rfl
    · exact (World.Talk.journal _ (refreshNote_notMem_of_head (by simp [toString]))).requests

theorem requests_renameItem (item : Item) (new : String) (w : World) :
    (Deed.on (renameItem item new) w).2.requests = w.requests := by
  have hr := requests_rename item new w
  rw [on_renameItem]
  split
  · exact (World.Talk.info ..).requests
  generalize Act.on (item.rename new) w = q at hr
  obtain ⟨_ | _, w'⟩ := q
  · exact (World.Talk.error ..).requests.trans hr
  · exact (World.Talk.info ..).requests.trans hr

theorem requests_renameAll (pairs : List (Item × String)) (w : World) :
    (Deed.on (renameAll pairs) w).2.requests = w.requests := by
  induction pairs generalizing w with
  | nil => rfl
  | cons pair rest ih => rw [on_renameAll_cons, ih, requests_renameItem]

/-- A confirmation asks its host once, at the end. -/
theorem requests_confirm (host : Host) (w : World) (h : s.state.isFinal = false) :
    ((confirm host).on s w).2.2.requests = w.requests + 1 := by
  rw [on_confirm host w h]
  have hdone := requests_renameAll (s.selection.members.zip s.proposed) w
  dsimp only
  rw [Deed.on_bind, (World.Talk.info ..).requests, requests_refresh, renameMembers, hdone]

section

variable [Find.Engine]

/-! ## Errors -/

/-- The error in the place of an answer. -/
def errorOf? {α : Type} : Except Error α → Option Error
  | .error e => some e
  | .ok _ => none

/-- The error of an operation that fails. -/
def Operation.error? : Operation → Session → World → Option Error
  | setFind text, s, w => errorOf? ((Session.setFind text).on s w).1
  | setReplace text, s, w => errorOf? ((Session.setReplace text).on s w).1
  | selectPreset name, s, w => errorOf? ((Session.selectPreset name).on s w).1
  | reloadPresets, s, w => errorOf? (Session.reloadPresets.on s w).1
  | savePreset, s, w => errorOf? (Session.savePreset.on s w).1
  | deletePreset, s, w => errorOf? (Session.deletePreset.on s w).1
  | confirm host, s, w => errorOf? ((Session.confirm host).on s w).1
  | cancel, s, w => errorOf? (Session.cancel.on s w).1

/-- Every operation refuses to work on a session that has ended. -/
theorem Operation.error?_of_final (o : Operation) (w : World) (h : s.state.isFinal = true) :
    o.error? s w = some s.closed := by
  cases o <;> exact congrArg (fun r => errorOf? r.1) (on_guarded_of_final _ w h)

/-! ## Items -/

omit [Find.Engine] in
theorem selection_settled (s : Session) : s.settled.selection = s.selection := by
  rw [settled_eq]

theorem selection_of_edit (h : Edit s s') : s'.selection = s.selection := by
  cases h with
  | find hf =>
    obtain ⟨pattern, -, rfl⟩ := withFind_eq_ok hf
    exact selection_settled _
  | replace text =>
    obtain ⟨proposed, hr, -⟩ := withReplace_eq s text
    rw [hr]
    exact selection_settled _
  | presets store selected => rfl

theorem selection_of_edits (h : Edits s s') : s'.selection = s.selection := by
  induction h with
  | refl => rfl
  | tail _ he ih => exact (selection_of_edit he).trans ih

/-- Only a confirmation touches an item. -/
theorem Operation.selection_perform {o : Operation} (ho : o.isConfirm = false) (s : Session)
    (w : World) : (o.perform s w).1.selection = s.selection := by
  cases he : o.isEnd with
  | false => exact selection_of_edits (o.edits he s w)
  | true =>
    cases o with
    | confirm host => cases ho
    | cancel =>
      cases h : s.state.isFinal with
      | true => rw [perform_of_final _ w h]
      | false => rw [perform, on_cancel w h]
    | _ => cases he

/-! ## Steps -/

namespace Step

/-- The error of a step that fails. -/
def error? (t : Step) (r : Session × World) : Option Error :=
  t.operation.error? r.1 (t.meanwhile r.2)

/-- The step gives the proposed names. -/
def confirms (t : Step) (r : Session × World) : Bool :=
  t.operation.isConfirm && (t.error? r).isNone

/-- The step ends the session. -/
def ends (t : Step) (r : Session × World) : Bool := t.operation.isEnd && (t.error? r).isNone

/-- How often the step asks a host to show items anew. -/
def requests (t : Step) (r : Session × World) : Nat :=
  (t.take r).2.requests - (t.meanwhile r.2).requests

variable {t : Step}

/-- A session that has ended answers every step with the same error. -/
theorem error?_of_final (t : Step) (h : r.1.state.isFinal = true) : t.error? r = some r.1.closed :=
  t.operation.error?_of_final _ h

/-- A session that has ended does not change any more, whatever else happens in the world. -/
theorem take_of_final (t : Step) (h : r.1.state.isFinal = true) :
    t.take r = (r.1, t.meanwhile r.2) :=
  t.operation.perform_of_final _ h

theorem confirms_of_final (t : Step) (h : r.1.state.isFinal = true) : t.confirms r = false := by
  simp [confirms, t.error?_of_final h]

/-- To confirm an open session never fails. -/
theorem confirms_of_open (t : Step) (h : r.1.state.isFinal = false) :
    t.confirms r = t.operation.isConfirm := by
  unfold confirms error?
  cases t.operation with
  | confirm host =>
    rw [Operation.error?, on_confirm host _ h]
    rfl
  | _ => rfl

theorem ends_of_confirms (h : t.confirms r = true) : t.ends r = true := by
  obtain ⟨hc, he⟩ := Bool.and_eq_true_iff.mp h
  refine Bool.and_eq_true_iff.mpr ⟨?_, he⟩
  cases ho : t.operation with
  | confirm host => rfl
  | _ =>
    rw [ho] at hc
    cases hc

theorem isFinal_of_ends (h : t.ends r = true) : (t.take r).1.state.isFinal = true :=
  t.operation.isFinal_of_isEnd (Bool.and_eq_true_iff.mp h).1 _ _

theorem selection_take (h : t.confirms r = false) : (t.take r).1.selection = r.1.selection := by
  cases hf : r.1.state.isFinal with
  | true => rw [t.take_of_final hf]
  | false =>
    rw [t.confirms_of_open hf] at h
    exact t.operation.selection_perform h _ _

/-- A step asks a host for something only if it confirms the session, and then once. -/
theorem requests_eq (t : Step) (r : Session × World) :
    t.requests r = if t.confirms r then 1 else 0 := by
  unfold requests
  cases hf : r.1.state.isFinal with
  | true => simp [t.take_of_final hf, t.confirms_of_final hf]
  | false =>
    rw [t.confirms_of_open hf, take]
    cases ho : t.operation with
    | confirm host =>
      rw [Operation.perform, requests_confirm host _ hf, Nat.add_sub_cancel_left]
      rfl
    | _ =>
      rw [(Operation.turn rfl _ _).requests, Nat.sub_self]
      rfl

end Step

/-! ## Runs -/

/-- The sum of what the steps of a run come to. -/
def tally (f : Step → Session × World → Nat) : List Step → Session × World → Nat
  | [], _ => 0
  | t :: ts, r => f t r + tally f ts (t.take r)

/-- How often a run gives the proposed names. -/
def confirmations (steps : List Step) (r : Session × World) : Nat :=
  tally (fun t r => if t.confirms r then 1 else 0) steps r

/-- How often a run asks a host to show items anew. -/
def refreshings (steps : List Step) (r : Session × World) : Nat := tally Step.requests steps r

theorem confirmations_cons (t : Step) (ts : List Step) (r : Session × World) :
    confirmations (t :: ts) r = (if t.confirms r then 1 else 0) + confirmations ts (t.take r) :=
  rfl

theorem refreshings_eq (steps : List Step) (r : Session × World) :
    refreshings steps r = confirmations steps r :=
  congrArg (tally · steps r) (funext fun t => funext fun r => t.requests_eq r)

theorem confirmations_of_final (steps : List Step) (h : r.1.state.isFinal = true) :
    confirmations steps r = 0 := by
  induction steps generalizing r with
  | nil => rfl
  | cons t ts ih =>
    rw [confirmations_cons, t.confirms_of_final h, t.take_of_final h, if_neg nofun, Nat.zero_add]
    exact ih h

theorem confirmations_le_one (steps : List Step) (r : Session × World) :
    confirmations steps r ≤ 1 := by
  induction steps generalizing r with
  | nil => exact Nat.zero_le 1
  | cons t ts ih =>
    rw [confirmations_cons]
    cases hc : t.confirms r with
    | true =>
      -- The session has ended, so that no later step confirms it.
      rw [confirmations_of_final ts (t.isFinal_of_ends (t.ends_of_confirms hc))]
      exact Nat.le_refl 1
    | false =>
      rw [if_neg nofun, Nat.zero_add]
      exact ih _

/-- Up to its confirmation a session keeps the items that it began with. -/
theorem selection_play {steps : List Step} (h : confirmations steps r = 0) :
    (play steps r).1.selection = r.1.selection := by
  induction steps generalizing r with
  | nil => rfl
  | cons t ts ih =>
    rw [confirmations_cons] at h
    cases hc : t.confirms r with
    | true => simp [hc] at h
    | false =>
      rw [hc, if_neg nofun, Nat.zero_add] at h
      rw [play_cons, ih h, t.selection_take hc]

/-! ## The theorem -/

/-- Whatever is done with a session, its items keep their names up to the one confirmation that there
may be, and a host is asked to show them anew at that confirmation only. Once the session has ended
it stays as it is: every operation is an error, and changes neither the session nor anything in the
world. -/
theorem renames_in_one_confirmation (steps : List Step) (r : Session × World) :
    confirmations steps r ≤ 1 ∧ refreshings steps r = confirmations steps r ∧
      (confirmations steps r = 0 → (play steps r).1.selection = r.1.selection) ∧
      ∀ (t : Step) (later : List Step), t.ends (play steps r) = true →
        (play (steps ++ t :: later) r).1 = (t.take (play steps r)).1 ∧
          ∀ (o : Operation) (w : World),
            o.error? (t.take (play steps r)).1 w = some (t.take (play steps r)).1.closed ∧
              o.perform (t.take (play steps r)).1 w = ((t.take (play steps r)).1, w) := by
  refine ⟨confirmations_le_one steps r, refreshings_eq steps r, selection_play, ?_⟩
  intro t later he
  have hfinal := t.isFinal_of_ends he
  refine ⟨?_, fun o w => ⟨o.error?_of_final w hfinal, o.perform_of_final w hfinal⟩⟩
  rw [play_append, play_cons, play_of_final later hfinal]

end

attribute [local instance] Find.Engine.boundless in
/-- A confirmation that comes after the first one is refused. -/
theorem renames_in_one_confirmation_of_two :
    let r : Session × World :=
      (blank (.ofItems [.listed "sh010" .clip (.ok none) false]) ⟨⟨2024, 2, 21, 15, 7, 0⟩, "", ""⟩
        .none ⟨.ofString "p", .blank, false⟩ .legacy,
      ⟨⟨[], 0⟩, [], [], ⟨2024, 2, 21, 15, 7, 0⟩, .fixed none true [], [], 0⟩)
    let steps : List Step := [⟨id, .setFind "h"⟩, ⟨id, .setReplace "x"⟩]
    let t : Step := ⟨id, .confirm .silent⟩
    let later : List Step := [⟨id, .deletePreset⟩, ⟨id, .confirm .counting⟩]
    let s := (play (steps ++ t :: later) r).1
    confirmations steps r = 0 ∧ (play steps r).1.selection = r.1.selection ∧
      t.ends (play steps r) = true ∧ s = (t.take (play steps r)).1 ∧ s.names = ["sx010"] ∧
      s.state = .confirmed ∧ confirmations (steps ++ t :: later) r = 1 ∧
      refreshings (steps ++ t :: later) r = 1 := by
  intro r steps t later s
  have hnone : confirmations steps r = 0 := by decide +kernel
  have hends : t.ends (play steps r) = true := by decide +kernel
  have hone : confirmations (steps ++ t :: later) r = 1 := by decide +kernel
  obtain ⟨-, -, hkept, hafter⟩ := renames_in_one_confirmation steps r
  obtain ⟨-, hasked, -, -⟩ := renames_in_one_confirmation (steps ++ t :: later) r
  refine ⟨hnone, hkept hnone, hends, (hafter t later hends).1, ?_, ?_, hone, hasked.trans hone⟩ <;>
    decide +kernel

end Relabel.Session
