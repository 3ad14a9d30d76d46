import Relabel.Proofs.Preset.Catalogue
import Relabel.Proofs.Preset.History
import Relabel.Proofs.Session.Consistency

/-!
# A saved preset reproduces its session

The fields of a session go through a store, a file and another store into another session. Nothing
of them is lost on the way: selecting the preset there is the same as typing the fields in.

* `Session.savePreset_persisted`: what a session has done that says it has saved a preset.
* `Session.SelectsAs`: selecting a preset is the same as typing its texts in.
* `Session.saved_preset_reproduces`: it is, in every session over the file.
-/

namespace Relabel.Session

variable {s s' : Session} {w w' : World} {name : String}

/-! ## Saving -/

/-- A session that says that it has saved a preset has saved a store in which the preset is the first
of its name. -/
theorem savePreset_persisted {o : SaveOutcome} (ho : s.state.isFinal = false)
    (h : savePreset.on s w = (.ok o, s', w'))
    (hn : o = .added name true ∨ o = .overwritten name true) :
    ∃ w₁ w₂, Act.on (s.storeWith name).save w₁ = (.ok s'.store, w₂) ∧ w'.disk = w₂.disk := by
  have hs := saving_savePreset w ho
  rw [h] at hs
  cases hs with
  | cancelled => simp at hn
  | declined => simp at hn
  | @written asked _ _ _ _ _ _ _ hs ht =>
    obtain rfl : asked = name := by
      unfold keptAs at hn
      split at hn <;> simpa using hn
    exact ⟨_, _, hs, ht.disk⟩
  | unwritten =>
    unfold keptAs at hn
    split at hn <;> simp at hn

/-! ## Selecting -/

/-- Selecting the preset of a name does to a session what typing two texts in does, and then the
fields hold the texts. -/
def SelectsAs [Find.Engine] (s : Session) (name find replace : String) : Prop :=
  ∀ w, ∃ s₁ s₂ s₃ w₁ w₂ w₃, (selectPreset name).on s w = (.ok true, s₁, w₁) ∧
    (setFind find).on s w = (.ok (), s₂, w₂) ∧ (setReplace replace).on s₂ w₂ = (.ok (), s₃, w₃) ∧
    s₁ = { s₃ with selected := some name } ∧ s₁.find = find ∧ s₁.replace = replace

theorem selectsAs [Find.Engine] {p : Preset} {pattern : Find.Pattern} (ho : s.state.isFinal = false)
    (hp : s.store.get? p.name = some p) (hf : Find.Pattern.compile p.find s.mode = .ok pattern)
    (hr : sanitize p.replace = p.replace) : s.SelectsAs p.name p.find p.replace := by
  have hs : s.withFind p.find = .ok { s with pattern, find := p.find }.refreshed.settled := by
    rw [withFind, hf]
    rfl
  generalize hs₂ : { s with pattern, find := p.find }.refreshed.settled = s₂ at hs
  rw [settled_of_open (by exact ho)] at hs₂
  have ho₂ : s₂.state.isFinal = false := hs₂ ▸ isFinal_openState ..
  have hfind : s₂.find = p.find := hs₂ ▸ rfl
  let s₁ : Session := { s₂.withReplace p.replace with selected := some p.name }
  have hpreset : s.withPreset p = .ok s₁ := by
    rw [withPreset, hs]
    rfl
  obtain ⟨proposed, hrep, -⟩ := withReplace_eq s₂ p.replace
  rw [settled_of_open (by exact ho₂)] at hrep
  intro w
  let told (s : Session) : World := { w with journal := w.journal ++ s.findNote }
  have hselect : (selectPreset p.name).on s w = (.ok true, s₁, told s₁) := by
    rw [on_selectPreset p.name w ho, hp]
    dsimp only
    rw [hpreset]
  have hset : (setFind p.find).on s w = (.ok (), s₂, told s₂) := by
    rw [on_setFind p.find w ho, on_adopt, hs]
  refine ⟨_, _, _, _, _, _, hselect, hset, on_setReplace p.replace _ ho₂, rfl, ?_, ?_⟩
  · exact (congrArg Session.find hrep).trans hfind
  · exact (congrArg Session.replace hrep).trans hr

/-! ## The theorem -/

variable {selection : Selection} {setting : Setting} {lookup : Lookup} {store : Store}
  {mode : Find.Mode}

theorem begin_open [Find.Engine]
    (h : Act.on (begin selection setting lookup store mode) w = (.ok s, w')) :
    s.state.isFinal = false ∧ s.mode = mode := by
  obtain ⟨hu, hb⟩ := (UpToDate.blank selection setting lookup store mode).edits (edits_of_begin h)
  exact ⟨hu.isFinal, congrArg (fun b => b.2.2) hb⟩

/-- Once a session has said that it has saved a preset, a store is loaded from the file again, and
selecting the preset in a session over that store is the same as typing in what the fields of the
first session were. -/
theorem saved_preset_reproduces [Find.Engine] {o : SaveOutcome} {w₁ : World}
    (h : Reachable selection setting lookup mode s) (ho : s.state.isFinal = false)
    (hs : savePreset.on s w = (.ok o, s', w'))
    (hn : o = .added name true ∨ o = .overwritten name true)
    (hw : Store.SameFile s.store.path w' w₁) :
    (∃ w₂, Act.on (Store.load s.store.path) w₁ = (.ok s'.store, w₂)) ∧
      (∀ t : Session, t.state.isFinal = false → t.store = s'.store → t.mode = mode →
        t.SelectsAs name s.find s.replace) ∧
      ∀ selection setting lookup v t v',
        Act.on (begin selection setting lookup s'.store mode) v = (.ok t, v') →
          t.SelectsAs name s.find s.replace := by
  obtain ⟨hu, hb⟩ := UpToDate.of_reachable h ho
  obtain rfl : s.mode = mode := congrArg (fun b => b.2.2) hb
  obtain ⟨v₁, v₂, hsave, hdisk⟩ := savePreset_persisted ho hs hn
  obtain ⟨hstore, -, hfile, -⟩ := Store.save_ok hsave
  have hread : Store.readCatalogue w₁.disk s.store.path = .ok (s.storeWith name).catalogue := by
    rw [hw, hdisk]
    exact hfile
  have hselects (t : Session) (hot : t.state.isFinal = false)
      (hst : t.store = s'.store) (hm : t.mode = s.mode) : t.SelectsAs name s.find s.replace :=
    selectsAs (p := s.asPreset name) hot ((hst.trans hstore) ▸ s.get?_storeWith name) (hm ▸ hu.pattern) hu.template
  refine ⟨⟨(Act.on (Store.load s.store.path) w₁).2, Prod.ext ?_ rfl⟩, hselects, ?_⟩
  · rw [Store.on_load, hread, hstore]
    rfl
  · intro selection setting lookup v t v' hbegin
    obtain ⟨hot, hm⟩ := begin_open hbegin
    exact hselects t hot (Store.begin_ok hbegin).1 hm

attribute [local instance] Find.Engine.boundless in
/-- Two presets have the name that the fields are saved under. -/
theorem saved_preset_reproduces_twins :
    let setting : Setting := ⟨⟨2024, 2, 21, 15, 7, 0⟩, "feature", "kieran"⟩
    let selection : Selection := .ofItems [.listed "sh010" .clip (.ok none) false]
    let w : World := ⟨⟨[.folder 0 []], 0⟩, [], [], setting.now, .scripted [some "a"] [true] [], [], 0⟩
    ∃ s s' w', Reachable selection setting .none .anySequence s ∧
      savePreset.on s w = (.ok (.overwritten "a" true), s', w') ∧
      s'.store.presets = [⟨"a", "s*0", "<user>_"⟩, ⟨"a", "d", "e"⟩] ∧
      (∃ w₂, Act.on (Store.load (.ofString "p")) w' = (.ok s'.store, w₂)) ∧
      ∀ v t v', Act.on (begin selection setting .none s'.store .anySequence) v = (.ok t, v') →
        t.SelectsAs "a" "s*0" "<user>_" := by
  intro setting selection w
  let store : Store := ⟨.ofString "p", ⟨"", "", [⟨"a", "b", "c"⟩, ⟨"a", "d", "e"⟩]⟩, true⟩
  let steps : List Step := [⟨id, .setFind "s*0"⟩, ⟨id, .setReplace "<user>/"⟩]
  have h : Reachable selection setting .none .anySequence _ := ⟨store, w, _, _, steps, rfl, rfl⟩
  generalize hs : (play steps _).1 = s at h
  let r := savePreset.on s w
  have hr : r.1 = .ok (.overwritten "a" true) := by subst hs; decide +kernel
  have hpath : s.store.path = .ofString "p" := by subst hs; decide +kernel
  have hfind : s.find = "s*0" := by subst hs; decide +kernel
  have hreplace : s.replace = "<user>_" := by subst hs; decide +kernel
  obtain ⟨hload, -, hbegin⟩ := saved_preset_reproduces h (by subst hs; decide +kernel)
    (Prod.ext hr rfl : r = (_, r.2.1, r.2.2)) (.inr rfl) rfl
  rw [hfind, hreplace] at hbegin
  rw [hpath] at hload
  refine ⟨s, r.2.1, r.2.2, h, Prod.ext hr rfl, ?_, hload, hbegin selection setting .none⟩
  subst hs
  decide +kernel

end Relabel.Session
