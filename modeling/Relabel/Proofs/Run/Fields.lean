import Relabel.Proofs.Run.Execution

/-!
# The fields of a run

The session of a run comes to its fields in up to four steps: from the first preset when it starts,
from the preset that the options name, and from the find text and the template that they give.

* `Session.Filled`: what is kept of a session through the steps.
* `Run.findFor`, `Run.templateFor`: the fields in the end.
* `Run.filled_of_preview`: a run shows its preview with these fields.
-/

namespace Relabel

/-! ## Sessions -/

namespace Session

variable {s s' : Session} {basis : Selection × Resolver × Find.Mode} {store : Store}
  {find replace : String} {w w' : World}

/-- An open session with these fields. -/
structure Filled [Find.Engine] (basis : Selection × Resolver × Find.Mode) (store : Store)
    (find replace : String) (s : Session) : Prop where
  upToDate : s.UpToDate
  basis_eq : s.basis = basis
  store_eq : s.store = store
  find_eq : s.find = find
  replace_eq : s.replace = replace

namespace Filled

variable [Find.Engine]

theorem blank (selection : Selection) (setting : Setting) (lookup : Lookup) (store : Store)
    (mode : Find.Mode) : (blank selection setting lookup store mode).Filled
      (selection, .ofSelection setting selection lookup, mode) store "" "" :=
  ⟨.blank .., rfl, rfl, rfl, rfl⟩

/-- A find text replaces the one before. -/
theorem withFind (h : s.Filled basis store find replace) {text : String}
    (hf : s.withFind text = .ok s') : s'.Filled basis store text replace := by
  obtain ⟨hu, hb⟩ := h.upToDate.withFind hf
  obtain ⟨pattern, -, rfl⟩ := withFind_eq_ok hf
  rw [settled_of_open]
  · rw [settled_of_open] at hu hb
    · exact ⟨hu, hb.trans h.basis_eq, h.store_eq, rfl, h.replace_eq⟩
    all_goals exact h.upToDate.isFinal
  · exact h.upToDate.isFinal

/-- A template replaces the one before, and loses its illegal characters. -/
theorem withReplace (h : s.Filled basis store find replace) (text : String) :
    (s.withReplace text).Filled basis store find (sanitize text) := by
  obtain ⟨hu, hb⟩ := h.upToDate.withReplace text
  obtain ⟨proposed, hr, -⟩ := withReplace_eq s text
  rw [settled_of_open] at hr
  · refine ⟨hu, hb.trans h.basis_eq, ?_, ?_, ?_⟩ <;> rw [hr]
    · exact h.store_eq
    · exact h.find_eq
  · exact h.upToDate.isFinal

/-- A preset replaces both fields. -/
theorem withPreset (h : s.Filled basis store find replace) {p : Preset}
    (hp : s.withPreset p = .ok s') : s'.Filled basis store p.find (sanitize p.replace) := by
  unfold Session.withPreset at hp
  cases hf : s.withFind p.find with
  | error e => exact nomatch hf ▸ hp
  | ok s₁ =>
    rw [hf] at hp
    cases hp
    obtain ⟨hu, hb, hs, hfind, hreplace⟩ := (h.withFind hf).withReplace p.replace
    exact ⟨⟨hu.pattern, hu.template, hu.resolved, hu.proposed, hu.state⟩, hb, hs, hfind, hreplace⟩

end Filled

theorem of_adopt {edit : Session → Except Error Session}
    (h : (adopt edit).on s w = (.ok (), s', w')) : edit s = .ok s' := by
  rw [on_adopt] at h
  cases he : edit s with
  | error e =>
    rw [he] at h
    cases h
  | ok s₁ =>
    rw [he] at h
    cases h
    rfl

theorem on_leaveOut (target : Target) (items : List Item) (w : World) :
    (Deed.on (leaveOut (.ofItems items) target.leftOut) w).1 = ⟨items, target.leftOut⟩ := by
  cases target <;> rfl

end Session

/-! ## Options -/

namespace Run

open Session (Filled)

variable {o : Options} {w w' : World}

/-- The preset that a run takes its fields from: the one that is named, or else the first. -/
def presetFor (o : Options) (c : Catalogue) : Option Preset :=
  match o.preset? with
  | some name => c.get? name
  | none => c.presets.head?

def findFor (o : Options) (c : Catalogue) : String :=
  (o.find?.or ((presetFor o c).map Preset.find)).getD ""

/-- The replace template holds no illegal characters, wherever it comes from. -/
def templateFor (o : Options) (c : Catalogue) : String :=
  sanitize ((o.replace?.or ((presetFor o c).map Preset.replace)).getD "")

section

variable [Find.Engine] {s s' : Session} {basis : Selection × Resolver × Find.Mode} {store : Store}
  {find replace : String}

/-- A session starts with the fields of its first preset, or with empty ones. -/
theorem filled_of_start {target : Target} {items : List Item} {setting : Setting}
    {mode : Find.Mode} (h : Act.on (Session.start target (.ofItems items) setting store mode) w =
      (.ok s, w')) :
    let selection : Selection := ⟨items, target.leftOut⟩
    let first? := store.presets.head?
    s.Filled (selection, .ofSelection setting selection target.lookup, mode) store
      ((first?.map Preset.find).getD "") (sanitize ((first?.map Preset.replace).getD "")) := by
  intro selection first?
  unfold Session.start at h
  obtain ⟨selection', w₁, hl, h⟩ := Act.bind_eq_ok h
  obtain ⟨_, w₂, -, h⟩ := Act.bind_eq_ok h
  -- The kinds that the target leaves out are all that happens to the selection.
  obtain rfl : selection = selection' := by
    rw [Act.on_lift] at hl
    cases hl
    exact (Session.on_leaveOut ..).symm
  have hblank := Filled.blank selection setting target.lookup store mode
  rw [Session.on_begin] at h
  dsimp only at h
  cases hp : store.presets with
  | nil =>
    rw [hp] at h
    cases h
    have hf : first? = none := by rw [← List.head?_nil, ← hp]
    rw [hf]
    exact hblank
  | cons first rest =>
    rw [hp] at h
    dsimp only at h
    split at h
    · next hload =>
      cases h
      have hf : first? = some first := by rw [← List.head?_cons (l := rest), ← hp]
      rw [hf]
      exact hblank.withPreset (Session.of_adopt hload)
    · cases h

theorem filled_of_usePreset (h : s.Filled basis store find replace) {name : String}
    (hr : (usePreset name).on s w = (.ok (), s', w')) : ∃ p, store.get? name = some p ∧
      s'.Filled basis store p.find (sanitize p.replace) := by
  unfold usePreset at hr
  obtain ⟨found, s₁, w₁, hs, hr⟩ := SessionAct.bind_eq_ok hr
  rw [Session.on_selectPreset _ _ h.upToDate.isFinal, h.store_eq] at hs
  cases hg : store.get? name with
  | none =>
    rw [hg] at hs
    cases hs
    cases hr
  | some p =>
    rw [hg] at hs
    dsimp only at hs
    split at hs
    · cases hs
    next hp =>
    cases hs
    cases hr
    exact ⟨p, rfl, h.withPreset hp⟩

theorem filled_of_preset? {first? : Option Preset} (hfirst : first? = store.presets.head?)
    (h : s.Filled basis store ((first?.map Preset.find).getD "")
      (sanitize ((first?.map Preset.replace).getD "")))
    (hr : (o.preset?.forM usePreset).on s w = (.ok (), s', w')) :
    (∀ name, o.preset? = some name → store.holds name = true) ∧
      let p? := presetFor o store.catalogue
      s'.Filled basis store ((p?.map Preset.find).getD "")
        (sanitize ((p?.map Preset.replace).getD "")) := by
  unfold presetFor
  cases ho : o.preset? with
  | none =>
    rw [ho] at hr
    cases hr
    exact ⟨nofun, hfirst ▸ h⟩
  | some name =>
    rw [ho] at hr
    obtain ⟨p, hg, h'⟩ := filled_of_usePreset h hr
    refine ⟨?_, ?_⟩
    · rintro _ ⟨⟩
      exact Option.isSome_iff_exists.mpr ⟨p, hg⟩
    · dsimp only
      rw [show store.catalogue.get? name = some p from hg]
      exact h'

theorem filled_of_find? (h : s.Filled basis store find replace)
    (hr : (o.find?.forM Session.setFind).on s w = (.ok (), s', w')) :
    s'.Filled basis store (o.find?.getD find) replace := by
  cases ho : o.find? with
  | none =>
    rw [ho] at hr
    cases hr
    exact h
  | some text =>
    rw [ho] at hr
    change (Session.setFind text).on s w = _ at hr
    rw [Session.on_setFind _ _ h.upToDate.isFinal] at hr
    exact h.withFind (Session.of_adopt hr)

theorem filled_of_replace? (h : s.Filled basis store find (sanitize replace))
    (hr : (o.replace?.forM Session.setReplace).on s w = (.ok (), s', w')) :
    s'.Filled basis store find (sanitize (o.replace?.getD replace)) := by
  cases ho : o.replace? with
  | none =>
    rw [ho] at hr
    cases hr
    exact h
  | some text =>
    rw [ho] at hr
    change (Session.setReplace text).on s w = _ at hr
    rw [Session.on_setReplace _ _ h.upToDate.isFinal] at hr
    cases hr
    exact h.withReplace text

theorem filled_of_setFields {first? : Option Preset} (hfirst : first? = store.presets.head?)
    (h : s.Filled basis store ((first?.map Preset.find).getD "")
      (sanitize ((first?.map Preset.replace).getD "")))
    (hr : (setFields o).on s w = (.ok (), s', w')) :
    (∀ name, o.preset? = some name → store.holds name = true) ∧
      s'.Filled basis store (findFor o store.catalogue) (templateFor o store.catalogue) := by
  unfold setFields at hr
  obtain ⟨_, s₁, w₁, hp, hr⟩ := SessionAct.bind_eq_ok hr
  obtain ⟨_, s₂, w₂, hf, hr⟩ := SessionAct.bind_eq_ok hr
  obtain ⟨hheld, h₁⟩ := filled_of_preset? hfirst h hp
  refine ⟨hheld, ?_⟩
  rw [findFor, templateFor, Option.getD_or, Option.getD_or]
  exact filled_of_replace? (filled_of_find? h₁ hf) hr

end

/-! ## The preview -/

/-- A run comes to its preview only if there is a preset of the name that is asked for; its session
then has the fields that are asked for. -/
theorem filled_of_preview [Find.Engine] {p : Preview} (h : Act.on (preview o) w = (.ok p, w')) :
    let selection : Selection := ⟨p.items, p.setup.target.leftOut⟩
    let c := p.setup.store.catalogue
    (∀ name, o.preset? = some name → c.holds name = true) ∧
      p.session.Filled
        (selection, .ofSelection p.setup.setting selection p.setup.target.lookup, p.setup.mode)
        p.setup.store (findFor o c) (templateFor o c) := by
  obtain ⟨w₁, w₂, w₃, s, -, -, hs, hf⟩ := preview_eq_ok h
  exact filled_of_setFields rfl (filled_of_start hs) hf

end Run
end Relabel
