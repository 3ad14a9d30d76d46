import Relabel.Proofs.Preset.Catalogue
import Relabel.Proofs.Preset.Store
import Relabel.Proofs.Session.Execution
import Relabel.Proofs.World.Talk

/-!
# Saving presets

The user is asked for a name until it is not blank or there is none. Under that name the fields go
into the store, and the store is saved; whether it could be is part of the answer.

* `Session.storeWith`: the store with the fields in it as a preset.
* `Session.Saving`: the ways in which saving a preset ends (`Session.saving_savePreset`).
-/

namespace Relabel.Session

variable {s : Session} {w w' : World} {offered : Option String} {name : String} {fuel : Nat}

/-! ## The name -/

theorem talk_of_askForName {answer : Option String}
    (h : Deed.on (askForName offered fuel) w = (answer, w')) : w.Talk w' := by
  simpa [h] using talk_askForName offered fuel w

/-- A name that has been asked for is not blank. -/
theorem isBlankText_of_askForName (h : Deed.on (askForName offered fuel) w = (some name, w')) :
    Text.isBlankText name = false := by
  induction fuel generalizing w with
  | zero => cases (congrArg Prod.fst h : none = some name)
  | succ fuel ih =>
    unfold askForName at h
    rw [Deed.on_bind] at h
    generalize Deed.on (World.ask (·.askName offered)) w = r at h
    obtain ⟨_ | asked, w₁⟩ := r
    · cases h
    dsimp only at h
    rw [Deed.on_ite] at h
    split at h
    · exact ih h
    · next hb =>
      cases h
      exact Bool.eq_false_iff.mpr hb

/-! ## The store -/

/-- The store with the fields in it under a name. -/
def storeWith (s : Session) (name : String) : Store :=
  s.store.edit (s.store.catalogue.keep (s.asPreset name))

/-- The fields are found under the name that they are saved under. -/
theorem get?_storeWith (s : Session) (name : String) :
    (s.storeWith name).get? name = some (s.asPreset name) :=
  Catalogue.get?_keep s.store.catalogue (s.asPreset name)

theorem holds_storeWith (s : Session) (name : String) : (s.storeWith name).holds name = true :=
  Option.isSome_iff_exists.mpr ⟨_, s.get?_storeWith name⟩

/-- What is answered when the fields have gone into the store. -/
def keptAs (s : Session) (name : String) (persisted : Bool) : SaveOutcome :=
  if s.store.holds name then .overwritten name persisted else .added name persisted

/-- The fields go into the store under a name, and the store is saved. -/
def storing (s : Session) (name : String) (w : World) :
    Except Error SaveOutcome × Session × World :=
  match Act.on (s.storeWith name).save w with
  | (.ok store, w') => (.ok (s.keptAs name true), { s with store, selected := some name },
      (Deed.on (World.info s!"{name} preset saved to {store.path}") w').2)
  | (.error e, w') =>
    (.ok (s.keptAs name false), { s with store := s.storeWith name, selected := some name },
      (Deed.on (World.ask (saveFault (s.storeWith name) e)) w').2)

theorem on_storePreset_eq {edit : Store → Preset → Store} {f : Bool → SaveOutcome}
    (he : edit s.store (s.asPreset name) = s.storeWith name) (hf : f = s.keptAs name) (w : World) :
    (storePreset name edit >>= fun b => pure (f b)).on s w = s.storing name w := by
  rw [SessionAct.on_bind, on_storePreset, he, hf, storing]
  dsimp only
  obtain ⟨_ | _, w'⟩ := Act.on (s.storeWith name).save w <;> rfl

/-- Whether there is a preset of the name only decides whether the user is asked about it. -/
theorem on_savePreset_eq (w : World) (h : s.state.isFinal = false) :
    savePreset.on s w = match Deed.on (askForName s.selected (patience w)) w with
      | (none, w') => (.ok .cancelled, s, w')
      | (some name, w') =>
        if s.store.holds name then
          match Deed.on askOverwrite w' with
          | (true, w') => s.storing name w'
          | (false, w') =>
            (.ok (.declined name), s, (Deed.on (World.info s!"Kept existing preset {name}") w').2)
        else s.storing name w' := by
  rw [on_savePreset w h]
  obtain ⟨_ | name, w₁⟩ := Deed.on (askForName s.selected (patience w)) w
  · rfl
  dsimp only
  split
  · next hheld =>
    obtain ⟨_ | _, w₂⟩ := Deed.on askOverwrite w₁
    · rfl
    · refine on_storePreset_eq ?_ (funext fun b => (if_pos hheld).symm) w₂
      exact (if_pos hheld).trans (congrArg s.store.edit (if_pos hheld).symm)
  · next hnew =>
    refine on_storePreset_eq ?_ (funext fun b => (if_neg hnew).symm) w₁
    exact congrArg s.store.edit (if_neg hnew).symm

theorem talk_saveFault (store : Store) (e : Error) (w : World) :
    w.Talk (Deed.on (World.ask (saveFault store e)) w).2 :=
  .notify ..

/-! ## The ways it ends -/

/-- How saving a preset ends. -/
inductive Saving (s : Session) (w : World) : Except Error SaveOutcome × Session × World → Prop
  /-- There was no name. -/
  | cancelled {w' : World} : Deed.on (askForName s.selected (patience w)) w = (none, w') →
    Saving s w (.ok .cancelled, s, w')
  /-- A preset of the name was there and is to stay. -/
  | declined {name : String} {w₁ w' : World} :
    Deed.on (askForName s.selected (patience w)) w = (some name, w₁) →
    s.store.holds name = true → (Deed.on askOverwrite w₁).1 = false → w₁.Talk w' →
    Saving s w (.ok (.declined name), s, w')
  /-- The file has been written. -/
  | written {name : String} {store : Store} {w₁ w₂ w₃ w' : World} :
    Deed.on (askForName s.selected (patience w)) w = (some name, w₁) → w₁.Talk w₂ →
    Act.on (s.storeWith name).save w₂ = (.ok store, w₃) → w₃.Talk w' →
    Saving s w (.ok (s.keptAs name true), { s with store, selected := some name }, w')
  /-- The file could not be written; the preset stays in the store. -/
  | unwritten {name : String} {e : Error} {w₁ w₂ w₃ w' : World} :
    Deed.on (askForName s.selected (patience w)) w = (some name, w₁) → w₁.Talk w₂ →
    Act.on (s.storeWith name).save w₂ = (.error e, w₃) → w₃.Talk w' →
    Saving s w (.ok (s.keptAs name false),
      { s with store := s.storeWith name, selected := some name }, w')

theorem saving_storing {w₁ w₂ : World}
    (ha : Deed.on (askForName s.selected (patience w)) w = (some name, w₁)) (ht : w₁.Talk w₂) :
    Saving s w (s.storing name w₂) := by
  unfold storing
  cases hs : Act.on (s.storeWith name).save w₂ with
  | mk r w₃ =>
  cases r with
  | ok store => exact .written ha ht hs (.info ..)
  | error e => exact .unwritten ha ht hs (talk_saveFault ..)

/-- There are no other ways for saving to end. -/
theorem saving_savePreset (w : World) (h : s.state.isFinal = false) :
    Saving s w (savePreset.on s w) := by
  rw [on_savePreset_eq w h]
  cases ha : Deed.on (askForName s.selected (patience w)) w with
  | mk r w₁ =>
  cases r with
  | none => exact .cancelled ha
  | some name =>
    dsimp only
    split
    · next hheld =>
      have hc := World.Talk.confirm overwriteTitle overwriteMessage w₁
      rw [← askOverwrite] at hc
      cases hr : Deed.on askOverwrite w₁ with
      | mk r w₂ =>
      rw [hr] at hc
      cases r with
      | false => exact .declined ha hheld (congrArg Prod.fst hr) (hc.trans (.info ..))
      | true => exact saving_storing ha hc
    · exact saving_storing ha (.refl w₁)

end Relabel.Session
