import Mathlib.Data.List.Perm.Subperm
import Relabel.Proofs.Session.Deleted
import Relabel.Proofs.Session.Ending
import Relabel.Proofs.World.Notices

/-!
# What a session tells of

A session tells the user of what has become of items and presets. A renaming is told of once it has
come about, and so is the saving of a preset. That a preset has been deleted is told before the file
is written, and is not taken back if that fails.

* `Session.Notice`: what a session tells of.
* `Session.Operation.notices`: what an operation tells of, as its answer has it.
* `Session.Operation.Account`: how far that is true (`Session.Operation.account`).
* `Session.told_in_run`: what is told of in a run.
-/

namespace Relabel

/-- No preset of the name is left. -/
theorem Catalogue.holds_without (c : Catalogue) (name : String) :
    (c.without name).holds name = false := by
  rw [holds, get?, without, Option.isSome_eq_false_iff, Option.isNone_iff_eq_none,
    List.find?_eq_none]
  intro p hp
  simpa using (List.mem_filter.mp hp).2

namespace Session

variable {s s' : Session} {w w' : World} {name : String}

/-! ## Notices -/

/-- What a session tells the user of. -/
inductive Notice where
  | renamed (old new : String)
  | skipped (name : String)
  | done
  | cancelled
  | saved (name : String) (path : Path)
  | kept (name : String)
  | removed (name : String) (path : Path)
  deriving DecidableEq

def Notice.text : Notice → String
  | renamed old new => s!"Renamed {old} to {new}"
  | skipped name => s!"Skipping {name}. No change to name."
  | done => "Done!"
  | cancelled => "Cancelled!"
  | saved name path => s!"{name} preset saved to {path}"
  | kept name => s!"Kept existing preset {name}"
  | removed name path => s!"{name} preset deleted from {path}"

/-- The user is told of what has become of an item, unless it has refused its name. -/
def Outcome.notices : Outcome → List Notice
  | renamed old new => [.renamed old new]
  | skipped name => [.skipped name]
  | failed .. => []

/-- The user is told of a preset that has been written, and of one that stays as it is. -/
def SaveOutcome.notices (path : Path) : SaveOutcome → List Notice
  | added name true | overwritten name true => [.saved name path]
  | declined name => [.kept name]
  | _ => []

/-- The user is told of every preset that is removed once they have agreed, whether or not the file
can be written then. -/
def removals (s : Session) (w : World) : List Notice :=
  match s.selected with
  | none => []
  | some name =>
    if (Deed.on askDelete w).1 then
      (s.store.presets.filter (·.name == name)).map fun p => .removed p.name s.store.path
    else []

/-- What is told of, given the answer to saving a preset. -/
def saveNotices (path : Path) : Except Error SaveOutcome → List Notice
  | .ok outcome => outcome.notices path
  | .error _ => []

/-- What is told of, given the answer to a confirmation. -/
def confirmNotices : Except Error (List Outcome) → List Notice
  | .ok outcomes => outcomes.flatMap Outcome.notices ++ [.done]
  | .error _ => []

/-- What an operation tells of; one on a session that has ended tells of nothing. -/
def Operation.notices (o : Operation) (s : Session) (w : World) : List Notice :=
  if s.state.isFinal then [] else
    match o with
    | setFind _ | setReplace _ | selectPreset _ | reloadPresets => []
    | savePreset => saveNotices s.store.path (Session.savePreset.on s w).1
    | deletePreset => s.removals w
    | confirm host => confirmNotices ((Session.confirm host).on s w).1
    | cancel => [.cancelled]

/-! ## Fields -/

theorem tells_findNote (s : Session) (w : World) :
    w.Tells [] { w with journal := w.journal ++ s.findNote } := by
  have hnote : s.findNote.filterMap Journal.Entry.info? = [] := by
    unfold findNote
    split <;> rfl
  exact .of_untold hnote rfl

theorem tells_adopt (edit : Session → Except Error Session) (s : Session) (w : World) :
    w.Tells [] ((adopt edit).on s w).2.2 := by
  rw [on_adopt]
  cases edit s with
  | error e => exact .refl w
  | ok s' => exact tells_findNote s' w

theorem tells_selectPreset [Find.Engine] (name : String) (w : World) (h : s.state.isFinal = false) :
    w.Tells [] ((selectPreset name).on s w).2.2 := by
  rw [on_selectPreset name w h]
  cases s.store.get? name with
  | none => exact .warn ..
  | some p =>
    dsimp only
    cases s.withPreset p with
    | error e => exact .refl w
    | ok s' => exact tells_findNote s' w

theorem tells_goOn [Find.Engine] (o : DeleteOutcome) (s : Session) (w : World) :
    w.Tells [] ((loadFirst >>= fun _ => pure o).on s w).2.2 := by
  rw [on_goOn]
  cases s.store.presets with
  | nil => exact .refl w
  | cons first rest =>
    dsimp only
    cases s.withPreset first with
    | error e => exact .refl w
    | ok s' => exact tells_findNote s' w

theorem tells_reloadPresets (w : World) (h : s.state.isFinal = false) :
    w.Tells [] (reloadPresets.on s w).2.2 := by
  have ht := s.store.tells_reload w
  rw [on_reloadPresets w h]
  generalize Act.on s.store.reload w = r at ht
  obtain ⟨_ | store, w'⟩ := r <;> exact ht

/-! ## Saving a preset -/

theorem tells_askForName (offered : Option String) (fuel : Nat) (w : World) :
    w.Tells [] (Deed.on (askForName offered fuel) w).2 := by
  induction fuel generalizing w with
  | zero => exact .refl w
  | succ fuel ih =>
    unfold askForName
    rw [Deed.on_bind]
    have ha := World.Tells.askName offered w
    generalize Deed.on (World.ask (·.askName offered)) w = r at ha
    obtain ⟨_ | name, w'⟩ := r
    · exact ha
    dsimp only
    rw [Deed.on_ite]
    split
    · exact ha.before ((World.Tells.notify ..).before (ih _))
    · exact ha

theorem notices_keptAs (s : Session) (name : String) (path : Path) (persisted : Bool) :
    (s.keptAs name persisted).notices path = if persisted then [.saved name path] else [] := by
  unfold keptAs
  cases persisted <;> split <;> rfl

/-- That a preset is saved is told once it is in the file. -/
theorem tells_storing (s : Session) (name : String) (w : World) :
    w.Tells ((saveNotices s.store.path (s.storing name w).1).map Notice.text)
      (s.storing name w).2.2 := by
  have hs := (s.storeWith name).tells_save w
  unfold storing
  cases hr : Act.on (s.storeWith name).save w with
  | mk r w' =>
  rw [hr] at hs
  cases r with
  | error e =>
    dsimp only [saveNotices]
    rw [notices_keptAs]
    exact hs.before (.notify ..)
  | ok store =>
    obtain ⟨rfl, -⟩ := Store.save_ok hr
    dsimp only [saveNotices]
    rw [notices_keptAs]
    exact hs.before (.info ..)

theorem tells_savePreset (w : World) (h : s.state.isFinal = false) :
    w.Tells ((saveNotices s.store.path (savePreset.on s w).1).map Notice.text)
      (savePreset.on s w).2.2 := by
  rw [on_savePreset_eq w h]
  have ha := tells_askForName s.selected (patience w) w
  generalize Deed.on (askForName s.selected (patience w)) w = r at ha
  obtain ⟨_ | name, w₁⟩ := r
  · exact ha
  dsimp only
  split
  · have hc := World.Tells.confirm overwriteTitle overwriteMessage w₁
    rw [← askOverwrite] at hc
    generalize Deed.on askOverwrite w₁ = r at hc
    obtain ⟨_ | _, w₂⟩ := r
    · exact ha.before (hc.before (.info ..))
    · exact ha.before (hc.before (s.tells_storing name w₂))
  · exact ha.before (s.tells_storing name w₁)

/-! ## Deleting a preset -/

/-- Presets that are there are told of when they are removed, each as often as it is removed. -/
theorem tells_removeAll {store : Store} {ps : List Preset} (h : ps.Subperm store.presets)
    (w : World) : w.Tells (ps.map fun p => (Notice.removed p.name store.path).text)
      (Deed.on (removeAll store ps) w).2 := by
  induction ps generalizing store w with
  | nil => exact .refl w
  | cons p ps ih =>
    have hheld : store.holdsPreset p = true :=
      List.contains_iff_mem.mpr (h.subset List.mem_cons_self)
    obtain ⟨hpath, hcatalogue⟩ := store.delete_eq p
    have hrest : ps.Subperm (store.delete p).presets := by
      rw [Store.presets, hcatalogue]
      exact List.erase_cons_head p ps ▸ h.erase p
    have ht := ih hrest (Deed.on (World.tell
      [.record .info s!"{p.name} preset deleted from {store.path}"]) w).2
    rw [hpath] at ht
    unfold removeAll
    rw [Deed.on_bind, Store.deletionNote, if_pos hheld]
    exact (World.Tells.tell _ w).trans ht

theorem tells_afterRemoval (s : Session) (name : String) (w : World) :
    w.Tells (((s.store.presets.filter (·.name == name)).map
      fun p => Notice.removed p.name s.store.path).map Notice.text) (s.afterRemoval name w) := by
  have hsub := List.filter_sublist (l := s.store.presets) (p := fun p => p.name == name)
  rw [List.map_map]
  exact (World.Tells.confirm deleteTitle deleteMessage w).before
    (tells_removeAll hsub.subperm _)

theorem tells_deletePreset [Find.Engine] (w : World) (h : s.state.isFinal = false) :
    w.Tells ((s.removals w).map Notice.text) (deletePreset.on s w).2.2 := by
  have hd := deletion_deletePreset w h
  unfold removals
  generalize deletePreset.on s w = r at hd
  cases hd with
  | nothing hsel =>
    rw [hsel]
    exact .refl w
  | declined hsel ha =>
    rw [hsel, ha]
    exact .confirm ..
  | @unwritten name e w' hsel ha hs =>
    have ht := (s.store.without name).tells_save (s.afterRemoval name w)
    rw [hs] at ht
    rw [hsel, ha]
    have hkept : w'.Tells [] (Deed.on (s.tellKept name e) w').2 :=
      (World.Tells.notify ..).before (.warn ..)
    exact (s.tells_afterRemoval name w).after (ht.before hkept)
  | @written name w' hsel ha hs =>
    have ht := (s.store.without name).tells_save (s.afterRemoval name w)
    rw [hs] at ht
    rw [hsel, ha]
    exact (s.tells_afterRemoval name w).after (ht.before (tells_goOn ..))

/-! ## The ends -/

theorem tells_rename (item : Item) (new : String) (w : World) :
    w.Tells [] (Act.on (item.rename new) w).2 := by
  cases item with
  | listed name kind context locked => cases locked <;> exact .refl w
  | onDisk path kind =>
    rw [Item.rename, Item.on_move]
    split
    · exact .refl w
    split
    · exact .refl w
    · exact .of_journal [.record .debug _] rfl

theorem tells_renameItem (item : Item) (new : String) (w : World) :
    let r := Deed.on (renameItem item new) w
    w.Tells (r.1.2.notices.map Notice.text) r.2 := by
  have hr := tells_rename item new w
  rw [on_renameItem]
  split
  · exact .info ..
  generalize Act.on (item.rename new) w = q at hr
  obtain ⟨e | item', w'⟩ := q
  · exact hr.before (World.Tells.tell [.record .error _] w')
  · exact hr.before (.info ..)

theorem tells_renameAll (pairs : List (Item × String)) (w : World) :
    let r := Deed.on (renameAll pairs) w
    w.Tells (((r.1.map Prod.snd).flatMap Outcome.notices).map Notice.text) r.2 := by
  induction pairs generalizing w with
  | nil => exact .refl w
  | cons pair rest ih =>
    obtain ⟨item, new⟩ := pair
    have ht := (tells_renameItem item new w).trans (ih (Deed.on (renameItem item new) w).2)
    rw [← List.map_append, ← List.flatMap_cons] at ht
    exact ht

theorem tells_refresh (host : Host) (w : World) : w.Tells [] (Deed.on host.refresh w).2 := by
  cases host with
  | silent => exact .tell [.record .debug "Refresh requested"] w
  | counting => exact .of_journal_eq rfl

theorem tells_confirm (host : Host) (w : World) (h : s.state.isFinal = false) :
    w.Tells ((confirmNotices ((confirm host).on s w).1).map Notice.text)
      ((confirm host).on s w).2.2 := by
  have ht := (tells_renameAll (s.selection.members.zip s.proposed) w).trans
    ((tells_refresh host _).before (.info "Done!" _))
  rw [on_confirm host w h]
  dsimp only [confirmNotices]
  rw [List.map_append]
  exact ht

theorem tells_cancel (w : World) (h : s.state.isFinal = false) :
    w.Tells ["Cancelled!"] (cancel.on s w).2.2 := by
  rw [on_cancel w h]
  exact .info ..

/-- What the user is told of by an operation. -/
theorem Operation.tells [Find.Engine] (o : Operation) (s : Session) (w : World) :
    w.Tells ((o.notices s w).map Notice.text) (o.perform s w).2 := by
  unfold notices
  cases h : s.state.isFinal with
  | true =>
    rw [o.perform_of_final w h]
    exact .refl w
  | false =>
    rw [if_neg nofun]
    cases o with
    | setFind text =>
      rw [perform, on_setFind text w h]
      exact tells_adopt ..
    | setReplace text =>
      rw [perform, on_setReplace text w h]
      exact .refl w
    | selectPreset name => exact tells_selectPreset name w h
    | reloadPresets => exact tells_reloadPresets w h
    | savePreset => exact tells_savePreset w h
    | deletePreset => exact tells_deletePreset w h
    | confirm host => exact tells_confirm host w h
    | cancel => exact tells_cancel w h

/-! ## What is true of it -/

/-- The text that a renaming is told of with. -/
def Outcome.renaming? : Outcome → Option String
  | renamed old new => some s!"Renamed {old} to {new}"
  | skipped _ | failed .. => none

/-- The text begins as that of a renaming does. -/
def saysRenamed (text : String) : Bool := "Renamed ".toList.isPrefixOf text.toList

theorem saysRenamed_renamed (old new : String) :
    saysRenamed (Notice.renamed old new).text = true := by
  unfold saysRenamed Notice.text
  rw [List.isPrefixOf_iff_prefix]
  simp only [toString, String.toList_append, List.append_assoc]
  exact List.prefix_append _ _

theorem saysRenamed_skipped (name : String) : saysRenamed (Notice.skipped name).text = false := by
  unfold saysRenamed Notice.text
  simp only [toString, String.toList_append, List.append_assoc]
  rfl

/-- Among what a confirmation tells of, the texts that begin like that of a renaming are those of
the renamings that have come about. -/
theorem filter_saysRenamed (outcomes : List Outcome) :
    ((confirmNotices (.ok outcomes)).map Notice.text).filter saysRenamed =
      outcomes.filterMap Outcome.renaming? := by
  induction outcomes with
  | nil => rfl
  | cons outcome rest ih =>
    have hcons : confirmNotices (.ok (outcome :: rest)) =
        outcome.notices ++ confirmNotices (.ok rest) := by
      simp [confirmNotices]
    rw [hcons, List.map_append, List.filter_append, ih]
    cases outcome with
    | renamed old new =>
      exact congrArg (· ++ _) (List.filter_cons_of_pos (saysRenamed_renamed old new))
    | skipped name =>
      refine congrArg (· ++ _) (List.filter_cons_of_neg ?_)
      rw [saysRenamed_skipped]
      exact Bool.false_ne_true
    | failed name proposed detail => rfl

/-- How far what an operation tells of is true. Renamings are told of as they have come about, and a
preset is said to be saved if it has been. That presets have been deleted is true if the store can
be saved; otherwise all files are as they were, and so is the session. -/
structure Operation.Account [Find.Engine] (o : Operation) (s : Session) (w : World) : Prop where
  told : w.Tells ((o.notices s w).map Notice.text) (o.perform s w).2
  renamed : ∀ host outcomes, o = .confirm host → ((Session.confirm host).on s w).1 = .ok outcomes →
    ((o.notices s w).map Notice.text).filter saysRenamed = outcomes.filterMap Outcome.renaming?
  saved : ∀ name path, .saved name path ∈ o.notices s w ↔ o = .savePreset ∧ path = s.store.path ∧
    ((Session.savePreset.on s w).1 = .ok (.added name true) ∨
      (Session.savePreset.on s w).1 = .ok (.overwritten name true))
  removed : ∀ name path, .removed name path ∈ o.notices s w →
    o = .deletePreset ∧ path = s.store.path ∧
    (s.store.savable w = true → ∃ c,
      Store.readCatalogue (o.perform s w).2.disk path = .ok c ∧ c.holds name = false) ∧
    (s.store.savable w = false →
      (Session.deletePreset.on s w).1 = .ok (.deleted name false) ∧ (o.perform s w).1 = s ∧
        w.disk.SameLeaves (o.perform s w).2.disk)

theorem saved_mem_saveNotices {path path' : Path} {r : Except Error SaveOutcome} :
    .saved name path' ∈ saveNotices path r ↔
      path' = path ∧ (r = .ok (.added name true) ∨ r = .ok (.overwritten name true)) := by
  rcases r with _ | ⟨_, _ | _⟩ | ⟨_, _ | _⟩ | _ | _ <;>
    simp [saveNotices, SaveOutcome.notices, eq_comm, and_comm]

/-- Saving a preset does not tell of removals. -/
theorem removed_notMem_saveNotices {path path' : Path} {r : Except Error SaveOutcome} :
    .removed name path' ∉ saveNotices path r := by
  rcases r with _ | ⟨_, _ | _⟩ | ⟨_, _ | _⟩ | _ | _ <;> simp [saveNotices, SaveOutcome.notices]

/-- A confirmation tells of items and of its end. -/
theorem cases_of_mem_confirmNotices {n : Notice} {r : Except Error (List Outcome)}
    (h : n ∈ confirmNotices r) :
    (∃ old new, n = .renamed old new) ∨ (∃ name, n = .skipped name) ∨ n = .done := by
  cases r with
  | error e => cases h
  | ok outcomes =>
    rcases List.mem_append.mp h with h | h
    · obtain ⟨outcome, -, h⟩ := List.mem_flatMap.mp h
      cases outcome with
      | renamed old new => exact .inl ⟨old, new, List.mem_singleton.mp h⟩
      | skipped name => exact .inr (.inl ⟨name, List.mem_singleton.mp h⟩)
      | failed => cases h
    · exact .inr (.inr (List.mem_singleton.mp h))

/-- Only a preset that has been saved is told of as saved. -/
theorem saved_mem_notices {path : Path} (o : Operation) (s : Session) (w : World) :
    .saved name path ∈ o.notices s w ↔ o = .savePreset ∧ path = s.store.path ∧
      ((savePreset.on s w).1 = .ok (.added name true) ∨
        (savePreset.on s w).1 = .ok (.overwritten name true)) := by
  unfold Operation.notices
  cases h : s.state.isFinal with
  | true =>
    have herror : (savePreset.on s w).1 = .error s.closed :=
      congrArg Prod.fst (on_guarded_of_final _ w h)
    simp [herror]
  | false =>
    rw [if_neg nofun]
    cases o with
    | savePreset => simp [saved_mem_saveNotices]
    | deletePreset =>
      simp only [reduceCtorEq, false_and, iff_false]
      unfold removals
      split
      · exact List.not_mem_nil
      · split <;> simp
    | confirm host =>
      simp only [reduceCtorEq, false_and, iff_false]
      intro hm
      rcases cases_of_mem_confirmNotices hm with ⟨_, _, hn⟩ | ⟨_, hn⟩ | hn <;> cases hn
    | _ => simp

/-- Only a deletion to which the user has agreed tells of presets that are deleted. -/
theorem of_removed_mem_notices {path : Path} {o : Operation}
    (hm : .removed name path ∈ o.notices s w) : o = .deletePreset ∧ path = s.store.path ∧
      s.state.isFinal = false ∧ s.selected = some name ∧ (Deed.on askDelete w).1 = true := by
  unfold Operation.notices at hm
  split at hm
  · cases hm
  next ho =>
  cases o with
  | savePreset => exact absurd hm removed_notMem_saveNotices
  | deletePreset =>
    unfold removals at hm
    dsimp only at hm
    split at hm
    · cases hm
    next selected hsel =>
    split at hm
    · next ha =>
      obtain ⟨p, hp, heq⟩ := List.mem_map.mp hm
      cases heq
      have hname : p.name = selected := eq_of_beq (List.mem_filter.mp hp).2
      exact ⟨rfl, rfl, Bool.eq_false_iff.mpr ho, hname ▸ hsel, ha⟩
    · cases hm
  | confirm host =>
    rcases cases_of_mem_confirmNotices hm with ⟨_, _, hn⟩ | ⟨_, hn⟩ | hn <;> cases hn
  | cancel => cases List.mem_singleton.mp hm
  | _ => cases hm

/-- The file has lost the presets of the name. -/
theorem readCatalogue_deletePreset [Find.Engine] (ho : s.state.isFinal = false)
    (hsel : s.selected = some name) (ha : (Deed.on askDelete w).1 = true)
    (hsave : s.store.savable w = true) :
    Store.readCatalogue (deletePreset.on s w).2.2.disk s.store.path =
      .ok (s.store.catalogue.without name) := by
  obtain ⟨w', hs, he⟩ := deletePreset_of_savable w ho hsel ha hsave
  obtain ⟨-, -, hread, -⟩ := Store.save_ok hs
  obtain ⟨-, htalk⟩ := talk_loadFirst { s with store := s.store.without name } w'
  rw [he, SessionAct.on_bind_pure loadFirst, htalk.disk]
  exact hread

theorem Operation.account [Find.Engine] (o : Operation) (s : Session) (w : World) :
    o.Account s w where
  told := o.tells s w
  renamed := by
    rintro host outcomes rfl hok
    have hopen : s.state.isFinal = false := by
      cases h : s.state.isFinal with
      | false => rfl
      | true =>
        rw [show (Session.confirm host).on s w = _ from on_guarded_of_final _ w h] at hok
        cases hok
    unfold notices
    rw [hopen, if_neg nofun]
    dsimp only
    rw [hok]
    exact filter_saysRenamed outcomes
  saved name path := saved_mem_notices o s w
  removed name path hm := by
    obtain ⟨rfl, rfl, ho, hsel, ha⟩ := of_removed_mem_notices hm
    refine ⟨rfl, rfl, fun hsave => ?_, fun hsave => ?_⟩
    · exact ⟨_, readCatalogue_deletePreset ho hsel ha hsave, Catalogue.holds_without ..⟩
    · obtain ⟨-, hkept, -, -⟩ := deletion_of_selected w ho hsel
      obtain ⟨hanswer, hsame, hleaves, -⟩ := hkept ha hsave
      exact ⟨hanswer, hsame, hleaves⟩

/-! ## Runs -/

/-- What the user is told of by a step. -/
def Step.told [Find.Engine] (t : Step) (r : Session × World) : List String :=
  (t.take r).2.infos.drop (t.meanwhile r.2).infos.length

/-- What the user is told of in a run. -/
def told [Find.Engine] : List Step → Session × World → List String
  | [], _ => []
  | t :: ts, r => t.told r ++ told ts (t.take r)

/-- What the operations of a run tell of. -/
def noticed [Find.Engine] : List Step → Session × World → List Notice
  | [], _ => []
  | t :: ts, r => t.operation.notices r.1 (t.meanwhile r.2) ++ noticed ts (t.take r)

/-- What the user is told in a run are its notices. -/
theorem told_eq [Find.Engine] (steps : List Step) (r : Session × World) :
    told steps r = (noticed steps r).map Notice.text := by
  induction steps generalizing r with
  | nil => rfl
  | cons t ts ih =>
    have ht : t.told r = (t.operation.notices r.1 (t.meanwhile r.2)).map Notice.text :=
      (t.operation.tells r.1 (t.meanwhile r.2)).drop_infos
    rw [told, noticed, ht, ih, List.map_append]

/-- In a run the user is told of what its operations tell of and of nothing else; and each
operation, whatever has been done before it, tells of what its answer says, but for deletions that
have not come about. -/
theorem told_in_run [Find.Engine] (steps : List Step) (r : Session × World) :
    told steps r = (noticed steps r).map Notice.text ∧
      ∀ t : Step, t.operation.Account (play steps r).1 (t.meanwhile (play steps r).2) :=
  ⟨told_eq steps r, fun t => t.operation.account _ _⟩

/-! ## A deletion that has not come about -/

/-- A preset file in a directory to which a link leads. -/
def linkedDisk (c : Catalogue) : Disk where
  nodes := [.folder 0 [(Utf8.encode "d", 1), (Utf8.encode "l", 2)],
    .folder 0 [(Utf8.encode "p", 3)], .link (.ofString "d"), .file (Utf8.encode c.render), .file []]
  current := 0

/-- The same, with a file in the place of the link. -/
def unlinkedDisk (c : Catalogue) : Disk :=
  (linkedDisk c).setEntries Disk.root [(Utf8.encode "d", 1), (Utf8.encode "l", 4)]

attribute [local instance] Find.Engine.boundless in
/-- A preset is said to be deleted while its file is out of reach. The file holds it all the same,
and is found where the store was loaded from as soon as the link is there again. -/
theorem deletion_told_of_kept_preset :
    let setting : Setting := ⟨⟨2024, 2, 21, 15, 7, 0⟩, "feature", "kieran"⟩
    let selection : Selection := ⟨[.listed "sh010" .clip (.ok none) false], []⟩
    let path := Path.ofString "l/p"
    let c : Catalogue := ⟨"", "", [⟨"n", "sh", "x"⟩]⟩
    let world (d : Disk) : World := ⟨d, [], [], setting.now, .fixed none true [], [], 0⟩
    let w := world (unlinkedDisk c)
    ∃ s, Reachable selection setting .none .legacy s ∧
      (Act.on (Store.load path) (world (linkedDisk c))).1 = .ok s.store ∧
      .removed "n" path ∈ Operation.deletePreset.notices s w ∧
      ∃ w', deletePreset.on s w = (.ok (.deleted "n" false), s, w') ∧ c.holds "n" = true ∧
        Store.readCatalogue w'.disk (.ofString "d/p") = .ok c ∧
        Store.readCatalogue
          (w'.disk.setEntries Disk.root [(Utf8.encode "d", 1), (Utf8.encode "l", 2)]) path =
            .ok c := by
  intro setting selection path c world w
  let store : Store := ⟨path, c, false⟩
  let linked := world (linkedDisk c)
  let begun := Act.on (begin selection setting .none store .legacy) linked
  let s := ((loadPreset ⟨"n", "sh", "x"⟩).on
    (blank selection setting .none store .legacy) linked).2.1
  have hb : begun = (.ok s, begun.2) := rfl
  have hreach : Reachable selection setting .none .legacy s :=
    ⟨store, linked, s, begun.2, [], hb, rfl⟩
  have reads {d : Disk} {p : Path}
      (hp : d.place true p p.endsInSlash = .ok (.entry 1 (Utf8.encode "p") (some 3) false))
      (hi : d.node? 3 = some (.file (Utf8.encode c.render))) : Store.readCatalogue d p = .ok c :=
    Store.readCatalogue_of_render (Disk.readText_of_place hp hi).1 (Disk.readText_of_place hp hi).2
  have hdirect : Store.readCatalogue (unlinkedDisk c) (.ofString "d/p") = .ok c :=
    reads (by decide +kernel) rfl
  have hlinked : Store.readCatalogue (linkedDisk c) path = .ok c := reads (by decide +kernel) rfl
  have hload : (Act.on (Store.load path) linked).1 = .ok s.store := by
    rw [Store.on_load, show Store.readCatalogue linked.disk path = _ from hlinked]
    rfl
  have htold : .removed "n" path ∈ Operation.deletePreset.notices s w := by decide +kernel
  have ho : s.state.isFinal = false := by decide +kernel
  have hsave : s.store.savable w = false := by decide +kernel
  obtain ⟨e, w', hs, he⟩ := deletePreset_of_unsavable w ho (show s.selected = some "n" from rfl)
    rfl hsave
  have htalk := s.talk_afterRemoval "n" w
  have hparent : (s.store.without "n").path.parent? = some (.ofString "l") := by decide +kernel
  have hexists : (s.afterRemoval "n" w).disk.pathExists (.ofString "l") = true := by
    rw [htalk.disk]
    decide +kernel
  have hd : w'.disk = unlinkedDisk c := by
    rw [Store.eq_of_save_error hs hparent hexists, htalk.disk]
  have hagain : w'.disk.setEntries Disk.root [(Utf8.encode "d", 1), (Utf8.encode "l", 2)] =
      linkedDisk c := by
    rw [hd]
    rfl
  rw [← hd] at hdirect
  rw [← hagain] at hlinked
  exact ⟨s, hreach, hload, htold, _, he, rfl, hdirect, hlinked⟩

end Session
end Relabel
