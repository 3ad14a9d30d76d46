import Mathlib.Data.List.Basic
import Relabel.Proofs.Preset.Store
import Relabel.Proofs.Session.Execution
import Relabel.Proofs.World.Talk

/-!
# Deleting presets

All presets of a name are taken out of a store one by one. What is then written is what is read
again, so that a deletion that has been written goes on with the presets of the other names.

* `Store.without`: the store without the presets of a name, as it is once it has been written.
* `Session.Deletion`: the ways in which deleting the selected preset ends
  (`Session.deletion_deletePreset`).
-/

namespace Relabel

variable {w : World}

/-- The catalogue without the presets of a name. -/
def Catalogue.without (c : Catalogue) (name : String) : Catalogue :=
  { c with presets := c.presets.filter (·.name != name) }

namespace Store

/-- The store without the presets of a name, as it is once it has been written. -/
def without (s : Store) (name : String) : Store := ⟨s.path, s.catalogue.without name, false⟩

theorem delete_eq (s : Store) (p : Preset) : (s.delete p).path = s.path ∧
    (s.delete p).catalogue = { s.catalogue with presets := s.presets.erase p } := by
  unfold delete
  split
  · exact ⟨rfl, rfl⟩
  · next h =>
    have hp : p ∉ s.presets := by simpa [holdsPreset] using h
    rw [List.erase_of_not_mem hp]
    exact ⟨rfl, rfl⟩

/-- To take the presets with a property out one by one leaves those without it. -/
theorem diff_filter (keep : Preset → Bool) (ps : List Preset) :
    ps.diff (ps.filter fun p => !keep p) = ps.filter keep := by
  induction ps with
  | nil => rfl
  | cons p ps ih =>
    cases h : keep p with
    | true =>
      have hp : p ∉ ps.filter fun q => !keep q := by
        intro hm
        simp [h] at hm
      rw [List.filter_cons_of_neg (by simp [h]), List.cons_diff_of_not_mem hp, ih,
        List.filter_cons_of_pos h]
    | false =>
      rw [List.filter_cons_of_pos (by simp [h]), List.diff_cons, List.erase_cons_head, ih,
        List.filter_cons_of_neg (by simp [h])]

/-- Unsaved edits do not matter once a store is saved. -/
theorem on_save_of_eq {s t : Store} (hp : t.path = s.path) (hc : t.catalogue = s.catalogue)
    (w : World) : Act.on t.save w = Act.on s.save w := by
  obtain ⟨path, catalogue, dirty⟩ := t
  obtain rfl : path = s.path := hp
  obtain rfl : catalogue = s.catalogue := hc
  rw [on_save, on_save]

end Store

namespace Session

variable {s : Session} {name : String}

/-! ## Removing -/

theorem removeAll_eq (store : Store) (ps : List Preset) (w : World) :
    (Deed.on (removeAll store ps) w).1.path = store.path ∧
      (Deed.on (removeAll store ps) w).1.catalogue =
        { store.catalogue with presets := store.presets.diff ps } := by
  induction ps generalizing store w with
  | nil => exact ⟨rfl, rfl⟩
  | cons p ps ih =>
    unfold removeAll
    rw [Deed.on_bind]
    obtain ⟨hpath, hcatalogue⟩ := store.delete_eq p
    have hpresets : (store.delete p).presets = store.presets.erase p :=
      congrArg Catalogue.presets hcatalogue
    obtain ⟨hp, hc⟩ := ih (store.delete p) (Deed.on (World.tell (store.deletionNote p)) w).2
    rw [hp, hc, hpath, hcatalogue, hpresets, List.diff_cons]
    exact ⟨rfl, rfl⟩

/-- The presets of the other names are left, in their order. -/
theorem removeNamed_eq (store : Store) (name : String) (w : World) :
    (Deed.on (removeNamed store name) w).1.path = store.path ∧
      (Deed.on (removeNamed store name) w).1.catalogue = store.catalogue.without name := by
  have h := Store.diff_filter (·.name != name) store.presets
  simp only [bne, Bool.not_not] at h
  have hremoved := removeAll_eq store (store.presets.filter (·.name == name)) w
  rw [h] at hremoved
  exact hremoved

/-- Removing presets is only talked about. -/
theorem on_removeAll (store : Store) (ps : List Preset) (w : World) : ∃ es,
    (Deed.on (removeAll store ps) w).2 = { w with journal := w.journal ++ es } ∧
      ∀ e ∈ es, ∃ text, e = .record .info text := by
  induction ps generalizing store w with
  | nil => exact ⟨[], by rw [List.append_nil]; rfl, nofun⟩
  | cons p ps ih =>
    unfold removeAll
    rw [Deed.on_bind]
    obtain ⟨es, hes, hinfo⟩ :=
      ih (store.delete p) (Deed.on (World.tell (store.deletionNote p)) w).2
    refine ⟨store.deletionNote p ++ es, by rw [hes, ← List.append_assoc]; rfl, ?_⟩
    refine List.forall_mem_append.mpr ⟨fun e he => ?_, hinfo⟩
    unfold Store.deletionNote at he
    split at he
    · exact ⟨_, List.mem_singleton.mp he⟩
    · cases he

/-- The world in which the store without the presets of a name is saved: the user has agreed, and
has been told of each preset. -/
def afterRemoval (s : Session) (name : String) (w : World) : World :=
  (Deed.on (removeNamed s.store name) (Deed.on askDelete w).2).2

theorem talk_afterRemoval (s : Session) (name : String) (w : World) :
    w.Talk (s.afterRemoval name w) := by
  obtain ⟨es, hes, hinfo⟩ := on_removeAll s.store
    (s.store.presets.filter (·.name == name)) (Deed.on askDelete w).2
  rw [afterRemoval, removeNamed, hes]
  refine (World.Talk.confirm deleteTitle deleteMessage w).trans (.journal _ fun hm => ?_)
  obtain ⟨text, htext⟩ := hinfo _ hm
  cases htext

theorem hears_afterRemoval (s : Session) (name : String) (w : World) :
    w.Hears [.confirm deleteTitle deleteMessage] (s.afterRemoval name w) := by
  obtain ⟨es, hes, hinfo⟩ := on_removeAll s.store
    (s.store.presets.filter (·.name == name)) (Deed.on askDelete w).2
  rw [afterRemoval, removeNamed, hes]
  refine (World.Hears.confirm deleteTitle deleteMessage w).silence (.tell _ ?_)
  refine List.filterMap_eq_nil_iff.mpr fun e he => ?_
  obtain ⟨text, rfl⟩ := hinfo e he
  rfl

/-! ## The ways it ends -/

theorem saveFault_congr {s t : Store} (h : t.path = s.path) (e : Error) :
    saveFault t e = saveFault s e := by
  unfold saveFault
  rw [h]

/-- What the user is told when the store could not be written. -/
def tellKept (s : Session) (name : String) (e : Error) : Deed Unit := do
  World.ask (saveFault s.store e)
  World.warn s!"{name} preset kept, {s.store.path} was not written"

/-- How deleting the selected preset ends. -/
inductive Deletion [Find.Engine] (s : Session) (w : World) :
    Except Error DeleteOutcome × Session × World → Prop
  /-- No preset is selected. -/
  | nothing : s.selected = none → Deletion s w (.ok .nothingSelected, s, w)
  /-- The preset is to stay. -/
  | declined {name : String} : s.selected = some name → (Deed.on askDelete w).1 = false →
    Deletion s w (.ok (.declined name), s, (Deed.on askDelete w).2)
  /-- The file could not be written; the presets are put back. -/
  | unwritten {name : String} {e : Error} {w' : World} : s.selected = some name →
    (Deed.on askDelete w).1 = true →
    Act.on (s.store.without name).save (s.afterRemoval name w) = (.error e, w') →
    Deletion s w (.ok (.deleted name false), s, (Deed.on (s.tellKept name e) w').2)
  /-- The file has been written and read again. -/
  | written {name : String} {w' : World} : s.selected = some name →
    (Deed.on askDelete w).1 = true →
    Act.on (s.store.without name).save (s.afterRemoval name w) =
      (.ok (s.store.without name), w') →
    Deletion s w ((loadFirst >>= fun _ => pure (.deleted name true)).on
      { s with store := s.store.without name } w')

theorem deletion_deletePreset [Find.Engine] (w : World) (h : s.state.isFinal = false) :
    Deletion s w (deletePreset.on s w) := by
  rw [on_deletePreset w h]
  cases hsel : s.selected with
  | none => exact .nothing hsel
  | some name =>
    dsimp only
    cases ha : (Deed.on askDelete w).1 with
    | false =>
      rw [(Prod.ext ha rfl : Deed.on askDelete w = (false, (Deed.on askDelete w).2))]
      exact .declined hsel ha
    | true =>
      rw [(Prod.ext ha rfl : Deed.on askDelete w = (true, (Deed.on askDelete w).2))]
      dsimp only
      obtain ⟨hp, hc⟩ := removeNamed_eq s.store name (Deed.on askDelete w).2
      rw [Store.on_save_of_eq (s := s.store.without name) hp hc, ← afterRemoval]
      cases hs : Act.on (s.store.without name).save (s.afterRemoval name w) with
      | mk r w' =>
      cases r with
      | error e =>
        dsimp only
        rw [saveFault_congr hp]
        exact .unwritten hsel ha hs
      | ok saved =>
        -- What has just been written is read again, so that reading it cannot fail.
        have hread := Store.on_reload_of_save hs
        obtain ⟨rfl, -⟩ := Store.save_ok hs
        dsimp only
        rw [hread, ← hsel]
        exact .written hsel ha hs

/-- The ways in which deleting the selected preset ends. Nothing of the session changes unless the
file has been written; then the session goes on with the first of the presets that are left. -/
theorem deletePreset_cases [Find.Engine] (w : World) (ho : s.state.isFinal = false) :
    (s.selected = none ∧ deletePreset.on s w = (.ok .nothingSelected, s, w)) ∨
    ∃ name w', s.selected = some name ∧
      (((Deed.on askDelete w).1 = false ∧ deletePreset.on s w = (.ok (.declined name), s, w')) ∨
      ((Deed.on askDelete w).1 = true ∧
        (deletePreset.on s w = (.ok (.deleted name false), s, w') ∨
        ∃ store : Store, store.presets = s.store.presets.filter (·.name != name) ∧
          deletePreset.on s w = (loadFirst >>= fun _ => pure (.deleted name true)).on
            { s with store } w'))) := by
  have hd := deletion_deletePreset w ho
  generalize deletePreset.on s w = r at hd ⊢
  cases hd with
  | nothing hsel => exact .inl ⟨hsel, rfl⟩
  | declined hsel ha => exact .inr ⟨_, _, hsel, .inl ⟨ha, rfl⟩⟩
  | unwritten hsel ha => exact .inr ⟨_, _, hsel, .inr ⟨ha, .inl rfl⟩⟩
  | written hsel ha => exact .inr ⟨_, _, hsel, .inr ⟨ha, .inr ⟨_, rfl, rfl⟩⟩⟩

end Session
end Relabel
