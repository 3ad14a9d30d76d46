import Relabel.Proofs.Preset.Turn
import Relabel.Proofs.Session.Confirmation

/-!
# What the operations of a session do with its store

* `Session.Operation.turn`: every operation but a confirmation is a turn of the store.
* `Session.asks_renameAll`: a confirmation does nothing to the disk but to rename entries.
* `Session.Operation.dealing`: every operation deals with the store.
-/

namespace Relabel.Session

open Store (Turn Dealing)

variable {s s' : Session} {w w' : World}

/-! ## Fields -/

theorem store_settled (s : Session) : s.settled.store = s.store := by
  rw [settled_eq]

theorem store_withFind [Find.Engine] {text : String} (h : s.withFind text = .ok s') :
    s'.store = s.store := by
  unfold withFind at h
  cases hp : Find.Pattern.compile text s.mode with
  | error e => exact nomatch hp ▸ h
  | ok pattern =>
    rw [hp] at h
    cases h
    exact store_settled _

theorem store_withReplace (s : Session) (text : String) : (s.withReplace text).store = s.store := by
  unfold withReplace
  dsimp only
  rw [store_settled]
  split <;> rfl

/-- Fields that are taken from a preset leave the presets alone. -/
theorem store_withPreset [Find.Engine] {p : Preset} (h : s.withPreset p = .ok s') :
    s'.store = s.store := by
  unfold withPreset at h
  cases hf : s.withFind p.find with
  | error e => exact nomatch hf ▸ h
  | ok s₁ =>
    rw [hf] at h
    cases h
    exact (store_withReplace s₁ p.replace).trans (store_withFind hf)

theorem talk_findNote (s : Session) (w : World) :
    w.Talk { w with journal := w.journal ++ s.findNote } := by
  refine .journal w ?_
  unfold findNote
  split
  · exact List.not_mem_nil
  · exact refreshNote_notMem_of_head (by simp [toString])

theorem talk_adopt {edit : Session → Except Error Session} (w : World)
    (h : ∀ s', edit s = .ok s' → s'.store = s.store) :
    ((adopt edit).on s w).2.1.store = s.store ∧ w.Talk ((adopt edit).on s w).2.2 := by
  rw [on_adopt]
  cases he : edit s with
  | error e => exact ⟨rfl, .refl w⟩
  | ok s' => exact ⟨h s' he, talk_findNote s' w⟩

theorem talk_loadPreset [Find.Engine] (p : Preset) (s : Session) (w : World) :
    ((loadPreset p).on s w).2.1.store = s.store ∧ w.Talk ((loadPreset p).on s w).2.2 :=
  talk_adopt w fun _ h => store_withPreset h

theorem talk_setFind [Find.Engine] (text : String) (w : World) (h : s.state.isFinal = false) :
    ((setFind text).on s w).2.1.store = s.store ∧ w.Talk ((setFind text).on s w).2.2 := by
  rw [on_setFind text w h]
  exact talk_adopt w fun _ h => store_withFind h

theorem talk_setReplace (text : String) (w : World) (h : s.state.isFinal = false) :
    ((setReplace text).on s w).2.1.store = s.store ∧ w.Talk ((setReplace text).on s w).2.2 := by
  rw [on_setReplace text w h]
  exact ⟨store_withReplace s text, .refl w⟩

/-- To select a preset is talk as far as the store is concerned. -/
theorem talk_selectPreset [Find.Engine] (name : String) (w : World) (h : s.state.isFinal = false) :
    ((selectPreset name).on s w).2.1.store = s.store ∧
      w.Talk ((selectPreset name).on s w).2.2 := by
  rw [on_selectPreset name w h]
  cases s.store.get? name with
  | none => exact ⟨rfl, .warn ..⟩
  | some p =>
    dsimp only
    cases hp : s.withPreset p with
    | error e => exact ⟨rfl, .refl w⟩
    | ok s' => exact ⟨store_withPreset hp, talk_findNote s' w⟩

theorem talk_loadFirst [Find.Engine] (s : Session) (w : World) :
    (loadFirst.on s w).2.1.store = s.store ∧ w.Talk (loadFirst.on s w).2.2 := by
  rw [on_loadFirst]
  split
  · exact ⟨rfl, .refl w⟩
  · exact talk_loadPreset ..

theorem talk_cancel (w : World) (h : s.state.isFinal = false) :
    (cancel.on s w).2.1.store = s.store ∧ w.Talk (cancel.on s w).2.2 := by
  rw [on_cancel w h]
  exact ⟨rfl, .info ..⟩

/-! ## Presets -/

theorem turn_reloadPresets (w : World) (h : s.state.isFinal = false) :
    s.store.Turn w (reloadPresets.on s w).2.2 (reloadPresets.on s w).2.1.store := by
  rw [on_reloadPresets w h]
  have ht := Store.talk_reload s.store w
  cases hr : Act.on s.store.reload w with
  | mk r w' =>
    rw [hr] at ht
    cases r with
    | error e => exact .talk ht
    | ok store => exact Store.turn_reload hr

theorem turn_savePreset (w : World) (h : s.state.isFinal = false) :
    s.store.Turn w (savePreset.on s w).2.2 (savePreset.on s w).2.1.store := by
  have hs := saving_savePreset w h
  generalize savePreset.on s w = r at hs
  cases hs with
  | cancelled ha => exact .talk (talk_of_askForName ha)
  | declined ha _ _ ht => exact .talk ((talk_of_askForName ha).trans ht)
  | written ha ht hs ht' =>
    exact ((Store.turn_save s.store hs rfl).before ht').after
      ((talk_of_askForName ha).trans ht)
  | unwritten ha ht hs ht' =>
    exact ((Store.turn_save_error (.inr ⟨_, rfl⟩) hs).before ht').after
      ((talk_of_askForName ha).trans ht)

/-- A deletion that could not be written leaves the store as it was. -/
theorem turn_deletePreset [Find.Engine] (w : World) (h : s.state.isFinal = false) :
    s.store.Turn w (deletePreset.on s w).2.2 (deletePreset.on s w).2.1.store := by
  have hd := deletion_deletePreset w h
  generalize deletePreset.on s w = r at hd
  cases hd with
  | nothing => exact .talk (.refl w)
  | declined => exact .talk (.confirm ..)
  | unwritten _ _ hs =>
    -- The store is taken back as it was before its presets were removed.
    exact ((Store.turn_given_up s.store hs rfl).after (s.talk_afterRemoval ..)).before
      ((talk_saveFault ..).trans (.warn ..))
  | @written name w' _ _ hs =>
    obtain ⟨hstore, htalk⟩ := talk_loadFirst { s with store := s.store.without name } w'
    rw [SessionAct.on_bind_pure loadFirst, hstore]
    exact ((Store.turn_save s.store hs rfl).after (s.talk_afterRemoval ..)).before htalk

/-! ## Every operation -/

/-- Talk that leaves the store alone is a turn. -/
theorem turn_of_talk (h : s'.store = s.store ∧ w.Talk w') : s.store.Turn w w' s'.store :=
  h.1 ▸ .talk h.2

/-- Every operation but a confirmation is a turn of the store. -/
theorem Operation.turn [Find.Engine] {o : Operation} (ho : o.isConfirm = false) (s : Session)
    (w : World) : s.store.Turn w (o.perform s w).2 (o.perform s w).1.store := by
  cases h : s.state.isFinal with
  | true =>
    rw [o.perform_of_final w h]
    exact .talk (.refl w)
  | false =>
    cases o with
    | setFind text => exact turn_of_talk (talk_setFind text w h)
    | setReplace text => exact turn_of_talk (talk_setReplace text w h)
    | selectPreset name => exact turn_of_talk (talk_selectPreset name w h)
    | reloadPresets => exact turn_reloadPresets w h
    | savePreset => exact turn_savePreset w h
    | deletePreset => exact turn_deletePreset w h
    | confirm host => cases ho
    | cancel => exact turn_of_talk (talk_cancel w h)

/-! ## Confirming -/

/-- What is done to the disk where an item has come to an outcome. -/
def changesFor : Item × Outcome → List Change
  | (.onDisk path _, .renamed _ new) => [.rename path (path.withFileName (Utf8.encode new))]
  | _ => []

theorem eq_rename_of_mem_changesFor {r : Item × Outcome} {c : Change} (h : c ∈ changesFor r) :
    ∃ path target, c = .rename path target := by
  unfold changesFor at h
  split at h
  · exact ⟨_, _, List.mem_singleton.mp h⟩
  · cases h

theorem asks_renameItem (item : Item) (new : String) (w : World) :
    let r := Deed.on (renameItem item new) w
    w.Asks (changesFor (item, r.1.2)) [] r.2 := by
  have nothing {es : List Journal.Entry} : w.Asks [] [] { w with journal := w.journal ++ es } :=
    .of_eq rfl rfl
  rw [on_renameItem]
  split
  · cases item <;> exact nothing
  cases item with
  | listed name kind context locked => cases locked <;> exact nothing
  | onDisk path kind =>
    rw [Item.rename, Item.on_move]
    cases Item.checkName w.disk path (path.withFileName (Utf8.encode new))
        (Item.onDisk path kind).name new with
    | error e => exact nothing
    | ok =>
      dsimp only
      cases w.disk.rename path (path.withFileName (Utf8.encode new)) with
      | error e => exact nothing
      | ok d => exact ⟨rfl, rfl⟩

/-- Renaming items asks the user nothing, and requests one change for each item that has been
renamed. -/
theorem asks_renameAll (pairs : List (Item × String)) (w : World) :
    let r := Deed.on (renameAll pairs) w
    w.Asks (((pairs.map Prod.fst).zip (r.1.map Prod.snd)).flatMap changesFor) [] r.2 := by
  induction pairs generalizing w with
  | nil => exact .refl w
  | cons pair rest ih =>
    obtain ⟨item, new⟩ := pair
    exact (asks_renameItem item new w).trans (ih (Deed.on (renameItem item new) w).2)

/-- A confirmation writes no file. -/
theorem dealing_confirm (host : Host) (w : World) (h : s.state.isFinal = false) :
    s.store.Dealing w ((confirm host).on s w).2.2 ((confirm host).on s w).2.1.store := by
  rw [on_confirm host w h]
  refine .kept ?_
  rintro ⟨content, hc⟩
  have hdone := asks_renameAll (s.selection.members.zip s.proposed) w
  have hc : Change.write s.store.path content ∈
      (Deed.on s.renameMembers w).2.changes.drop w.changes.length := by
    cases host <;> exact hc
  rw [renameMembers, hdone.changes, List.drop_left] at hc
  obtain ⟨_, -, hc⟩ := List.mem_flatMap.mp hc
  obtain ⟨_, _, hren⟩ := eq_rename_of_mem_changesFor hc
  cases hren

/-- Every operation deals with the store. -/
theorem Operation.dealing [Find.Engine] (o : Operation) (s : Session) (w : World) :
    s.store.Dealing w (o.perform s w).2 (o.perform s w).1.store := by
  cases h : s.state.isFinal with
  | true =>
    rw [o.perform_of_final w h]
    exact .kept w.not_wrote_self
  | false =>
    cases o with
    | confirm host => exact dealing_confirm host w h
    | _ => exact (Operation.turn rfl s w).dealing

end Relabel.Session
