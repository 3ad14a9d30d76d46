import Relabel.Proofs.Preset.Catalogue

/-!
# Names of presets

A catalogue accepts any names in any order. What a session makes of its catalogue keeps the names
different from each other and in their order, and makes up no blank ones.

* `Catalogue.Received`: what comes of a catalogue that receives a preset
  (`Catalogue.received_keep`).
* `Catalogue.Revision`: what a session makes of a catalogue without reading the file.
* `Catalogue.Revision.nodup`, `Catalogue.Revision.ascending`: what it keeps.
* `Catalogue.ascending_sort`: where the order comes from.
-/

namespace Relabel.Catalogue

variable {c c' : Catalogue} {p q : Preset}

/-- The names are in order, by the numbers of their characters. -/
def Ascending (c : Catalogue) : Prop := c.names.Pairwise (· ≤ ·)

theorem le_name_trans (p q r : Preset) (hpq : decide (p.name ≤ q.name) = true)
    (hqr : decide (q.name ≤ r.name) = true) : decide (p.name ≤ r.name) = true :=
  decide_eq_true (String.le_trans (of_decide_eq_true hpq) (of_decide_eq_true hqr))

theorem le_name_total (p q : Preset) :
    (decide (p.name ≤ q.name) || decide (q.name ≤ p.name)) = true := by
  simpa using String.le_total p.name q.name

/-- A sorted catalogue is in the order of names. -/
theorem ascending_sort (c : Catalogue) : c.sort.Ascending := by
  rw [Ascending, names, List.pairwise_map]
  have h : c.sort.presets.Pairwise fun p q => decide (p.name ≤ q.name) = true :=
    List.pairwise_mergeSort le_name_trans le_name_total c.presets
  exact h.imp of_decide_eq_true

/-- Presets of one name are not moved past each other. -/
theorem filter_sort (c : Catalogue) (name : String) :
    c.sort.presets.filter (·.name == name) = c.presets.filter (·.name == name) := by
  have hle : (c.presets.filter (·.name == name)).Pairwise fun p q =>
      decide (p.name ≤ q.name) = true := by
    refine List.pairwise_filter.mpr (List.pairwise_of_forall fun p q hp hq => ?_)
    rw [eq_of_beq hp, eq_of_beq hq]
    exact decide_eq_true (String.le_refl name)
  have hsub := List.sublist_mergeSort le_name_trans le_name_total hle List.filter_sublist
  have hsub' := hsub.filter (·.name == name)
  rw [List.filter_filter] at hsub'
  simp only [Bool.and_self] at hsub'
  have hperm := (List.mergeSort_perm c.presets fun p q => decide (p.name ≤ q.name)).filter
    (·.name == name)
  exact (hsub'.eq_of_length hperm.length_eq.symm).symm

/-! ## Presets that come in -/

/-- A catalogue has received a preset: in the place of the first one of its name, or, if there is
none, among the others in the order of the names, behind which presets of one name stay as they
were. -/
structure Received (c : Catalogue) (p : Preset) (c' : Catalogue) : Prop where
  title : c'.title = c.title
  version : c'.version = c.version
  taken : c.holds p.name = true → ∃ before old after, c.presets = before ++ old :: after ∧
    (∀ q ∈ before, q.name ≠ p.name) ∧ old.name = p.name ∧ c'.presets = before ++ p :: after
  fresh : c.holds p.name = false → c'.Ascending ∧
    ∀ name, c'.presets.filter (·.name == name) = (c.presets ++ [p]).filter (·.name == name)

theorem exists_replaceFirst {ps : List Preset} (h : ∃ q ∈ ps, q.name = p.name) :
    ∃ before old after, ps = before ++ old :: after ∧ (∀ q ∈ before, q.name ≠ p.name) ∧
      old.name = p.name ∧ replaceFirst p ps = before ++ p :: after := by
  induction ps with
  | nil => simp at h
  | cons q qs ih =>
    by_cases hq : q.name = p.name
    · exact ⟨[], q, qs, rfl, nofun, hq, if_pos hq⟩
    · have hqs : ∃ r ∈ qs, r.name = p.name := by simpa [hq] using h
      obtain ⟨before, old, after, rfl, hbefore, hold, hreplace⟩ := ih hqs
      refine ⟨q :: before, old, after, rfl, List.forall_mem_cons.mpr ⟨hq, hbefore⟩, hold, ?_⟩
      rw [replaceFirst, if_neg hq, hreplace]
      rfl

theorem received_keep (c : Catalogue) (p : Preset) : c.Received p (c.keep p) := by
  unfold keep
  cases h : c.holds p.name with
  | true =>
    rw [if_pos rfl]
    exact ⟨rfl, rfl, fun _ => exists_replaceFirst (holds_iff.mp h), fun hnew => nomatch h ▸ hnew⟩
  | false =>
    rw [if_neg nofun]
    refine ⟨rfl, rfl, fun hheld => (nomatch h ▸ hheld), fun _ => ⟨ascending_sort _, ?_⟩⟩
    exact filter_sort (c.add p)

/-! ## Revisions -/

/-- What a session makes of a catalogue. -/
inductive Revision (c : Catalogue) : Catalogue → Prop
  | same : Revision c c
  /-- A preset takes the place of another one of its name. -/
  | put (p : Preset) : Text.isBlankText p.name = false → c.holds p.name = true →
    Revision c (c.put p)
  /-- A preset of another name comes in. -/
  | add (p : Preset) : Text.isBlankText p.name = false → c.holds p.name = false →
    Revision c (c.add p).sort
  /-- The presets of a name go. -/
  | remove {c' : Catalogue} (name : String) :
    c'.presets = c.presets.filter (·.name != name) → Revision c c'

theorem map_name_replaceFirst (p : Preset) (ps : List Preset) :
    (replaceFirst p ps).map Preset.name = ps.map Preset.name := by
  induction ps with
  | nil => rfl
  | cons q qs ih =>
    unfold replaceFirst
    split
    · next h => rw [List.map_cons, List.map_cons, h]
    · rw [List.map_cons, List.map_cons, ih]

theorem names_put (c : Catalogue) (p : Preset) : (c.put p).names = c.names :=
  map_name_replaceFirst p c.presets

theorem mem_of_mem_replaceFirst {ps : List Preset} (h : q ∈ replaceFirst p ps) :
    q = p ∨ q ∈ ps := by
  induction ps with
  | nil => cases h
  | cons r rs ih =>
    unfold replaceFirst at h
    split at h
    · exact (List.mem_cons.mp h).imp_right (List.mem_cons_of_mem r)
    · rcases List.mem_cons.mp h with rfl | h
      · exact .inr List.mem_cons_self
      · exact (ih h).imp_right (List.mem_cons_of_mem r)

theorem revision_keep (c : Catalogue) (h : Text.isBlankText p.name = false) :
    c.Revision (c.keep p) := by
  unfold keep
  split
  · next hheld => exact .put p h hheld
  · next hnew => exact .add p h (Bool.eq_false_iff.mpr hnew)

namespace Revision

/-- A revision gives no name twice if none was there twice. -/
theorem nodup (h : c.Revision c') (hc : c.names.Nodup) : c'.names.Nodup := by
  cases h with
  | same => exact hc
  | put p => rwa [names_put]
  | add p _ hnew =>
    have hn : p.name ∉ c.names := by
      intro hm
      rw [holds_iff.mpr (List.mem_map.mp hm)] at hnew
      cases hnew
    have hperm : (c.add p).sort.names.Perm (c.names ++ [p.name]) := by
      simpa [names] using (perm_sort_add c p).map Preset.name
    refine hperm.nodup_iff.mpr (List.nodup_append.mpr ⟨hc, List.pairwise_singleton .., ?_⟩)
    intro name hm other ho heq
    exact hn (List.mem_singleton.mp ho ▸ heq ▸ hm)
  | remove name hps =>
    rw [names, hps]
    exact hc.sublist (List.filter_sublist.map Preset.name)

/-- A preset that comes in is put in order with the others. -/
theorem ascending (h : c.Revision c') (hc : c.Ascending) : c'.Ascending := by
  cases h with
  | same => exact hc
  | put p => rwa [Ascending, names_put]
  | add p => exact ascending_sort _
  | remove name hps =>
    rw [Ascending, names, hps]
    exact hc.sublist (List.filter_sublist.map Preset.name)

/-- No preset with a blank name comes in. -/
theorem mem_of_isBlankText (h : c.Revision c') (hp : p ∈ c'.presets)
    (hb : Text.isBlankText p.name = true) : p ∈ c.presets := by
  have other {q : Preset} (hq : Text.isBlankText q.name = false) : p ≠ q := by
    rintro rfl
    rw [hb] at hq
    cases hq
  cases h with
  | same => exact hp
  | put q hq => exact (mem_of_mem_replaceFirst hp).resolve_left (other hq)
  | add q hq =>
    have hm : p ∈ c.presets ∨ p = q := by simpa using (perm_sort_add c q).mem_iff.mp hp
    exact hm.resolve_right (other hq)
  | remove name hps =>
    rw [hps] at hp
    exact (List.mem_filter.mp hp).1

end Revision
end Relabel.Catalogue
