import Relabel.Preset.Store

/-!
# Looking presets up

* `Catalogue.keep`: a catalogue with one preset more, or with another preset of the same name.
* `Catalogue.get?_keep`: the preset is then the first of its name.
* `Catalogue.others_keep`: the presets of other names are the same as before.
-/

namespace Relabel.Catalogue

variable {c : Catalogue} {p q : Preset} {name : String}

theorem name_of_get? (h : c.get? name = some p) : p.name = name := by
  have hp := List.find?_some h
  exact eq_of_beq hp

theorem mem_of_get? (h : c.get? name = some p) : p ∈ c.presets := List.mem_of_find?_eq_some h

/-- A catalogue has a name if one of its presets has. -/
theorem holds_iff : c.holds name = true ↔ ∃ p ∈ c.presets, p.name = name := by
  simp [holds, get?]

/-- A preset is looked up by a name that no other preset has. -/
theorem get?_of_mem (hp : p ∈ c.presets) (h : ∀ q ∈ c.presets, q.name = p.name → q = p) :
    c.get? p.name = some p := by
  cases hq : c.get? p.name with
  | none => exact absurd (beq_self_eq_true p.name) (List.find?_eq_none.mp hq p hp)
  | some q => rw [h q (mem_of_get? hq) (name_of_get? hq)]

theorem find?_replaceFirst {ps : List Preset} (h : ∃ q ∈ ps, q.name = p.name) :
    (replaceFirst p ps).find? (·.name == p.name) = some p := by
  induction ps with
  | nil => simp at h
  | cons q qs ih =>
    unfold replaceFirst
    split
    · simp
    next hne =>
    rw [List.find?_cons_of_neg (by simpa using hne)]
    refine ih ?_
    obtain ⟨r, hr, hname⟩ := h
    rcases List.mem_cons.mp hr with rfl | hr
    · exact absurd hname hne
    · exact ⟨r, hr, hname⟩

/-- A preset that is put in the place of one of its name is found under it. -/
theorem get?_put (h : c.holds p.name = true) : (c.put p).get? p.name = some p :=
  find?_replaceFirst (holds_iff.mp h)

/-- Sorting adds no preset and loses none. -/
theorem perm_sort_add (c : Catalogue) (p : Preset) :
    (c.add p).sort.presets.Perm (c.presets ++ [p]) :=
  List.mergeSort_perm ..

theorem get?_sort_add (h : c.holds p.name = false) : (c.add p).sort.get? p.name = some p := by
  have hmem {q : Preset} : q ∈ (c.add p).sort.presets ↔ q ∈ c.presets ∨ q = p := by
    simpa using (perm_sort_add c p).mem_iff
  refine get?_of_mem (hmem.mpr (.inr rfl)) fun q hq hname => ?_
  rcases hmem.mp hq with hq | rfl
  · rw [holds_iff.mpr ⟨q, hq, hname⟩] at h
    cases h
  · rfl

/-- The catalogue with `p` in the place of the first preset of its name, or among the others in the
order of their names. -/
def keep (c : Catalogue) (p : Preset) : Catalogue :=
  if c.holds p.name then c.put p else (c.add p).sort

theorem get?_keep (c : Catalogue) (p : Preset) : (c.keep p).get? p.name = some p := by
  unfold keep
  split
  · next h => exact get?_put h
  · next h => exact get?_sort_add (Bool.eq_false_iff.mpr h)

theorem others_replaceFirst (p : Preset) (ps : List Preset) :
    (replaceFirst p ps).filter (·.name != p.name) = ps.filter (·.name != p.name) := by
  induction ps with
  | nil => rfl
  | cons q qs ih =>
    unfold replaceFirst
    split
    · next h => rw [List.filter_cons_of_neg (by simp), List.filter_cons_of_neg (by simp [h])]
    · rw [List.filter_cons, List.filter_cons, ih]

theorem others_keep (c : Catalogue) (p : Preset) :
    ((c.keep p).presets.filter (·.name != p.name)).Perm (c.presets.filter (·.name != p.name)) := by
  unfold keep
  split
  · exact .of_eq (others_replaceFirst p c.presets)
  · simpa [List.filter_append] using (perm_sort_add c p).filter (·.name != p.name)

end Relabel.Catalogue
