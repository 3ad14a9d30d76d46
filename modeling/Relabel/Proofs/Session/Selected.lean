import Relabel.Proofs.Preset.Catalogue
import Relabel.Proofs.Session.Consistency
import Relabel.Proofs.Session.Deletion
import Relabel.Proofs.Session.Turn

/-!
# The selected preset is there

A session keeps the name of the selected preset apart from its store. Presets are added, exchanged
and deleted, and the file may be changed by others before it is read again. As long as every find
text that is loaded is usable the name is that of a preset in the store.

* `Session.HoldsSelected`: the invariant, which every operation preserves
  (`Session.Operation.holdsSelected`).
* `Session.loadsUsable`: all find texts that a run loads from presets can be compiled.
* `Session.selected_preset_held`: the invariant holds of every run, so that deleting the selected
  preset removes something.
-/

namespace Relabel

namespace Store

variable {s : Store} {p : Preset}

theorem holds_of_get? {name : String} (h : s.get? name = some p) : s.holds name = true :=
  Option.isSome_iff_exists.mpr ⟨p, h⟩

theorem holds_of_mem (h : p ∈ s.presets) : s.holds p.name = true :=
  Catalogue.holds_iff.mpr ⟨p, h, rfl⟩

end Store

namespace Session

variable {s s' : Session} {w w' : World} {p : Preset}

/-! ## The invariant -/

/-- The selected preset is in the store. -/
def HoldsSelected (s : Session) : Prop :=
  ∀ name, s.selected = some name → s.store.holds name = true

def usable [Find.Engine] (p : Preset) (mode : Find.Mode) : Bool :=
  (Find.Pattern.compile p.find mode).toBool

theorem selected_settled (s : Session) : s.settled.selected = s.selected := by
  rw [settled_eq]

theorem selected_withFind [Find.Engine] {text : String} (h : s.withFind text = .ok s') :
    s'.selected = s.selected := by
  obtain ⟨pattern, -, rfl⟩ := withFind_eq_ok h
  exact selected_settled _

theorem selected_withReplace (s : Session) (text : String) :
    (s.withReplace text).selected = s.selected := by
  obtain ⟨proposed, h, -⟩ := withReplace_eq s text
  rw [h]
  exact selected_settled _

theorem selected_withPreset [Find.Engine] (h : s.withPreset p = .ok s') :
    s'.selected = some p.name := by
  unfold withPreset at h
  cases hf : s.withFind p.find with
  | error e => exact nomatch hf ▸ h
  | ok s₁ =>
    rw [hf] at h
    cases h
    rfl

/-- A preset can be taken over just if it can be used. -/
theorem toBool_withPreset [Find.Engine] (s : Session) (p : Preset) :
    (s.withPreset p).toBool = usable p s.mode := by
  unfold withPreset withFind usable
  cases Find.Pattern.compile p.find s.mode <;> rfl

theorem withPreset_eq_ok [Find.Engine] (s : Session) (hp : usable p s.mode = true) :
    ∃ s', s.withPreset p = .ok s' := by
  rw [← s.toBool_withPreset] at hp
  cases h : s.withPreset p with
  | error e =>
    rw [h] at hp
    cases hp
  | ok s' => exact ⟨s', rfl⟩

namespace HoldsSelected

theorem congr (h : s.HoldsSelected) (hs : s'.store = s.store) (hn : s'.selected = s.selected) :
    s'.HoldsSelected := by
  intro name hname
  rw [hs]
  exact h name (hn ▸ hname)

theorem of_none (h : s.selected = none) : s.HoldsSelected := by
  intro name hname
  rw [h] at hname
  cases hname

theorem of_some {name : String} (h : s.selected = some name) (hs : s.store.holds name = true) :
    s.HoldsSelected := by
  intro other hother
  rw [h] at hother
  cases hother
  exact hs

/-! ## Operations -/

theorem adopt {edit : Session → Except Error Session} (h : s.HoldsSelected) (w : World)
    (he : ∀ s', edit s = .ok s' → s'.HoldsSelected) :
    ((adopt edit).on s w).2.1.HoldsSelected := by
  rw [on_adopt]
  cases hs : edit s with
  | error e => exact h
  | ok s' => exact he s' hs

/-- A find text does not touch the selection. -/
theorem setFind [Find.Engine] (h : s.HoldsSelected) (ho : s.state.isFinal = false) (text : String)
    (w : World) : ((setFind text).on s w).2.1.HoldsSelected := by
  rw [on_setFind text w ho]
  exact h.adopt w fun s' hs => h.congr (store_withFind hs) (selected_withFind hs)

theorem setReplace (h : s.HoldsSelected) (ho : s.state.isFinal = false) (text : String)
    (w : World) : ((setReplace text).on s w).2.1.HoldsSelected := by
  rw [on_setReplace text w ho]
  exact h.congr (store_withReplace s text) (selected_withReplace s text)

theorem withPreset [Find.Engine] (hp : s.store.holds p.name = true) (h : s.withPreset p = .ok s') :
    s'.HoldsSelected :=
  of_some (selected_withPreset h) ((store_withPreset h).symm ▸ hp)

/-- A preset is selected only if the store has it. -/
theorem selectPreset [Find.Engine] (h : s.HoldsSelected) (ho : s.state.isFinal = false)
    (name : String) (w : World) : ((selectPreset name).on s w).2.1.HoldsSelected := by
  rw [on_selectPreset name w ho]
  cases hp : s.store.get? name with
  | none => exact h
  | some p =>
    dsimp only
    cases hs : s.withPreset p with
    | error e => exact h
    | ok s' =>
      have hname : p.name = name := Catalogue.name_of_get? hp
      exact withPreset (hname ▸ Store.holds_of_get? hp) hs

/-- A selection that the file no longer has is given up. -/
theorem reloadPresets (h : s.HoldsSelected) (ho : s.state.isFinal = false) (w : World) :
    (reloadPresets.on s w).2.1.HoldsSelected := by
  rw [on_reloadPresets w ho]
  obtain ⟨_ | store, w'⟩ := Act.on s.store.reload w
  · exact h
  · -- The name is dropped unless the new store has a preset of it.
    intro name hname
    obtain ⟨-, hheld⟩ := Option.filter_eq_some_iff.mp hname
    exact hheld

/-- What the fields are saved under is in the store, also if the file cannot be written. -/
theorem savePreset (h : s.HoldsSelected) (ho : s.state.isFinal = false) (w : World) :
    (savePreset.on s w).2.1.HoldsSelected := by
  have hs := saving_savePreset w ho
  generalize Session.savePreset.on s w = r at hs
  cases hs with
  | cancelled | declined => exact h
  | @written name _ _ _ _ _ _ _ hs _ =>
    obtain ⟨rfl, -⟩ := Store.save_ok hs
    exact of_some rfl (s.holds_storeWith name)
  | @unwritten name => exact of_some rfl (s.holds_storeWith name)

/-- To take the fields from the first preset does not depend on what was selected before. -/
theorem loadFirst [Find.Engine] (s : Session) (w : World)
    (hl : s.store.presets.head?.all (usable · s.mode) = true) :
    (loadFirst.on s w).1 = .ok () ∧ (loadFirst.on s w).2.1.HoldsSelected := by
  rw [on_loadFirst]
  cases hps : s.store.presets with
  | nil => exact ⟨rfl, of_none rfl⟩
  | cons first rest =>
    rw [hps] at hl
    obtain ⟨s', hs⟩ := withPreset_eq_ok s hl
    dsimp only
    rw [loadPreset, on_adopt, hs]
    exact ⟨rfl, withPreset (Store.holds_of_mem (hps ▸ List.mem_cons_self ..)) hs⟩

end HoldsSelected

/-! ## Presets that are loaded -/

/-- The presets that do not have the name of the selected one. -/
def others (s : Session) : List Preset := s.store.presets.filter fun p => some p.name != s.selected

/-- Deleting the selected preset comes to the point where another one is loaded. -/
def deletes [Find.Engine] (s : Session) (w : World) : Bool :=
  match (deletePreset.on s w).1 with
  | .ok .nothingSelected | .ok (.declined _) | .ok (.deleted _ false) => false
  | .ok (.deleted _ true) | .error _ => true

/-- The preset from which an operation takes the fields, if it takes them from any. -/
def Operation.loads? [Find.Engine] (o : Operation) (s : Session) (w : World) : Option Preset :=
  if s.state.isFinal then none
  else match o with
    | selectPreset name => s.store.get? name
    | deletePreset => if s.deletes w then s.others.head? else none
    | _ => none

theorem Operation.loads?_deletePreset [Find.Engine] (ho : s.state.isFinal = false)
    (hd : s.deletes w = true) : deletePreset.loads? s w = s.others.head? := by
  rw [loads?, ho, if_neg nofun]
  exact if_pos hd

/-- The others are what a deletion leaves. -/
theorem others_eq {name : String} (h : s.selected = some name) :
    s.others = s.store.presets.filter (·.name != name) := by
  rw [others, h]
  rfl

theorem deletes_of_written [Find.Engine] {t : Session} {name : String} (h : deletePreset.on s w =
    (loadFirst >>= fun _ => pure (.deleted name true)).on t w') : s.deletes w = true := by
  rw [deletes, h, SessionAct.on_bind]
  obtain ⟨_ | _, t', w₁⟩ := loadFirst.on t w' <;> rfl

/-- A deletion that has been written goes on with the first of the other presets. -/
theorem loadFirst_of_written [Find.Engine] {t : Session} {name : String}
    (ho : s.state.isFinal = false)
    (h : deletePreset.on s w = (loadFirst >>= fun _ => pure (.deleted name true)).on t w')
    (hm : t.mode = s.mode) (hps : t.store.presets = s.others)
    (hl : (Operation.deletePreset.loads? s w).all (usable · s.mode) = true) :
    (deletePreset.on s w).1 = .ok (.deleted name true) ∧
      (deletePreset.on s w).2.1.HoldsSelected := by
  rw [Operation.loads?_deletePreset ho (deletes_of_written h), ← hps, ← hm] at hl
  obtain ⟨hok, hheld⟩ := HoldsSelected.loadFirst t w' hl
  rw [h, SessionAct.on_bind]
  generalize loadFirst.on t w' = r at hok hheld
  obtain ⟨r, t', w''⟩ := r
  obtain rfl : r = .ok () := hok
  exact ⟨rfl, hheld⟩

/-- After a deletion another preset is selected, if the first of them can be used. -/
theorem HoldsSelected.deletePreset [Find.Engine] (h : s.HoldsSelected)
    (ho : s.state.isFinal = false) (w : World)
    (hl : (Operation.deletePreset.loads? s w).all (usable · s.mode) = true) :
    (deletePreset.on s w).2.1.HoldsSelected := by
  rcases deletePreset_cases w ho with ⟨-, he⟩ | ⟨name, w', hsel, ⟨-, he⟩ | ⟨-, he | ⟨store, hleft, he⟩⟩⟩
  · rwa [he]
  · rwa [he]
  · rwa [he]
  · exact (loadFirst_of_written ho he rfl (hleft.trans (others_eq hsel).symm) hl).2

/-! ## Runs -/

theorem Operation.holdsSelected [Find.Engine] (o : Operation) (h : s.HoldsSelected) (w : World)
    (hl : (o.loads? s w).all (usable · s.mode) = true) : (o.perform s w).1.HoldsSelected := by
  cases ho : s.state.isFinal with
  | true => rwa [o.perform_of_final w ho]
  | false =>
    cases o with
    | setFind text => exact h.setFind ho text w
    | setReplace text => exact h.setReplace ho text w
    | selectPreset name => exact h.selectPreset ho name w
    | reloadPresets => exact h.reloadPresets ho w
    | savePreset => exact h.savePreset ho w
    | deletePreset => exact h.deletePreset ho w hl
    | confirm host =>
      rw [perform, on_confirm host w ho]
      exact h.congr rfl rfl
    | cancel =>
      rw [perform, on_cancel w ho]
      exact h.congr rfl rfl

/-- Every find text that a run loads from a preset can be compiled. -/
def loadsUsable [Find.Engine] : List Step → Session × World → Bool
  | [], _ => true
  | t :: ts, r =>
    (t.operation.loads? r.1 (t.meanwhile r.2)).all (usable · r.1.mode) && loadsUsable ts (t.take r)

theorem holdsSelected_play [Find.Engine] {steps : List Step} {r : Session × World}
    (h : r.1.HoldsSelected) (hl : loadsUsable steps r = true) : (play steps r).1.HoldsSelected := by
  induction steps generalizing r with
  | nil => exact h
  | cons t ts ih =>
    obtain ⟨ht, hts⟩ := Bool.and_eq_true_iff.mp hl
    exact ih (t.operation.holdsSelected h _ ht) hts

variable {selection : Selection} {setting : Setting} {lookup : Lookup} {store : Store}
  {mode : Find.Mode}

theorem holdsSelected_of_begin [Find.Engine]
    (h : Act.on (begin selection setting lookup store mode) w = (.ok s, w')) :
    s.HoldsSelected := by
  rw [on_begin] at h
  dsimp only at h
  cases hps : store.presets with
  | nil =>
    rw [hps] at h
    cases h
    exact .of_none rfl
  | cons first rest =>
    rw [hps] at h
    dsimp only at h
    rw [loadPreset, on_adopt] at h
    cases hs : (blank selection setting lookup store mode).withPreset first with
    | error e =>
      rw [hs] at h
      cases h
    | ok s' =>
      rw [hs] at h
      cases h
      exact .withPreset (Store.holds_of_mem (hps ▸ List.mem_cons_self ..)) hs

/-! ## The theorem -/

/-- A deletion removes one preset at least. -/
theorem length_others_lt (h : s.HoldsSelected) {name : String} (hsel : s.selected = some name) :
    s.others.length < s.store.presets.length := by
  obtain ⟨p, hp, hname⟩ := Catalogue.holds_iff.mp (h name hsel)
  refine List.length_filter_lt_length_iff_exists.mpr ⟨p, hp, ?_⟩
  rw [hsel, hname]
  simp

/-- Whatever is done with a session and its file, and whatever fails, the selected preset is one of
the store as long as the find texts that are loaded can be compiled. So a deletion that the user
wants, and that is not taken back, takes all presets of that name out, of which there is one at
least. -/
theorem selected_preset_held [Find.Engine] {steps : List Step} {s₀ : Session} {w₀ : World}
    (hb : Act.on (begin selection setting lookup store mode) w = (.ok s₀, w₀))
    (hl : loadsUsable steps (s₀, w₀) = true) :
    let s := (play steps (s₀, w₀)).1
    (s.selected = none ∨ ∃ p ∈ s.store.presets, s.selected = some p.name) ∧
      ∀ w', s.state.isFinal = false →
        let r := deletePreset.on s w'
        (s.selected = none ∧ r.1 = .ok .nothingSelected) ∨
        ∃ name, s.selected = some name ∧
          (((Deed.on askDelete w').1 = false ∧ r.1 = .ok (.declined name)) ∨
          ((Deed.on askDelete w').1 = true ∧
            ((r.1 = .ok (.deleted name false) ∧ r.2.1 = s) ∨
            (r.2.1.store.presets = s.store.presets.filter (·.name != name) ∧
              r.2.1.store.presets.length < s.store.presets.length ∧
              ((Operation.deletePreset.loads? s w').all (usable · s.mode) = true →
                r.1 = .ok (.deleted name true)))))) := by
  intro s
  have h : s.HoldsSelected := holdsSelected_play (holdsSelected_of_begin hb) hl
  refine ⟨?_, fun w' ho => ?_⟩
  · cases hsel : s.selected with
    | none => exact .inl rfl
    | some name =>
      obtain ⟨p, hp, hname⟩ := Catalogue.holds_iff.mp (h name hsel)
      exact .inr ⟨p, hp, congrArg some hname.symm⟩
  · dsimp only
    rcases deletePreset_cases w' ho with ⟨hsel, he⟩ | ⟨name, w'', hsel, hcases⟩
    · exact .inl ⟨hsel, by rw [he]⟩
    refine .inr ⟨name, hsel, ?_⟩
    rcases hcases with ⟨ha, he⟩ | ⟨ha, he | ⟨store, hleft, he⟩⟩
    · exact .inl ⟨ha, by rw [he]⟩
    · exact .inr ⟨ha, .inl ⟨by rw [he], by rw [he]⟩⟩
    · have hps : (deletePreset.on s w').2.1.store.presets = store.presets := by
        rw [he, SessionAct.on_bind_pure loadFirst]
        exact congrArg Store.presets (talk_loadFirst { s with store } w'').1
      have hothers := hleft.trans (others_eq hsel).symm
      refine .inr ⟨ha, .inr ⟨hps.trans hleft, ?_, fun hu => ?_⟩⟩
      · rw [hps, hothers]
        exact length_others_lt h hsel
      · exact (loadFirst_of_written ho he rfl hothers hu).1

attribute [local instance] Find.Engine.boundless in
/-- Fields are saved under a name that two presets have, without being written. Then the file is
exchanged for another one, where two presets have one name too. -/
theorem selected_preset_held_after_exchange :
    let path : Path := .ofString "p"
    let store : Store := ⟨path, ⟨"", "", [⟨"b", "x", "y"⟩, ⟨"a", "s", "t"⟩, ⟨"a", "u", "v"⟩]⟩, true⟩
    let blocked : Disk := ⟨[.folder 0 [(Utf8.encode "p", 1)], .folder 0 []], 0⟩
    let text := "settings: \x7bscript_name: \x7bversion: \x7bpresets: " ++
      "[\x7bname: d\x7d, \x7bname: d, find: o\x7d]\x7d\x7d\x7d\n"
    let other : Disk := ⟨[.folder 0 [(Utf8.encode "p", 1)], .file (Utf8.encode text)], 0⟩
    let on (d : Disk) (w : World) : World := { w with disk := d }
    let w : World := ⟨blocked, [], [], ⟨2024, 2, 21, 15, 7, 0⟩,
      .scripted [some "a"] [true, true] [], [], 0⟩
    let steps : List Step := [⟨id, .savePreset⟩, ⟨on other, .reloadPresets⟩,
      ⟨id, .selectPreset "d"⟩]
    ∃ s₀ w₀, Act.on (begin ⟨[], []⟩ ⟨w.now, "", ""⟩ .none store .legacy) w = (.ok s₀, w₀) ∧
      loadsUsable steps (s₀, w₀) = true ∧
      let r := play steps (s₀, w₀)
      (∃ p ∈ r.1.store.presets, r.1.selected = some p.name) ∧
        (deletePreset.on r.1 r.2).1 = .ok (.deleted "d" true) ∧
        (deletePreset.on r.1 r.2).2.1.store.presets.length < r.1.store.presets.length := by
  intro path store blocked text other on w steps
  let begun := Act.on (begin ⟨[], []⟩ ⟨w.now, "", ""⟩ .none store .legacy) w
  let s₀ := ((loadPreset ⟨"b", "x", "y"⟩).on
    (blank ⟨[], []⟩ ⟨w.now, "", ""⟩ .none store .legacy) w).2.1
  have hb : begun = (.ok s₀, begun.2) := rfl
  have hrun : loadsUsable steps (s₀, begun.2) = true ∧
      (play steps (s₀, begun.2)).1.selected = some "d" ∧
      (play steps (s₀, begun.2)).1.state.isFinal = false ∧
      (deletePreset.on (play steps (s₀, begun.2)).1 (play steps (s₀, begun.2)).2).1 =
        .ok (.deleted "d" true) := by
    decide +kernel
  obtain ⟨hl, hsel, ho, hans⟩ := hrun
  obtain ⟨hheld, hdel⟩ := selected_preset_held hb hl
  refine ⟨s₀, begun.2, hb, hl, ?_⟩
  generalize play steps (s₀, begun.2) = r at hsel ho hans hheld hdel
  refine ⟨hheld.resolve_left (by rw [hsel]; nofun), hans, ?_⟩
  rcases hdel r.2 ho with ⟨hn, -⟩ | ⟨name, -, ⟨-, hd⟩ | ⟨-, ⟨hd, -⟩ | ⟨-, hlt, -⟩⟩⟩
  · rw [hsel] at hn
    cases hn
  · rw [hans] at hd
    cases hd
  · rw [hans] at hd
    cases hd
  · exact hlt

end Session
end Relabel
