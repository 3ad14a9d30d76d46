import Relabel.Proofs.Session.Deletion
import Relabel.Proofs.Session.Refusal
import Relabel.Proofs.Session.Selected

/-!
# What deleting the selected preset comes to

The user is asked, the store is written without the presets of the name, and the fields are taken
from the first preset that is left. Where the user says no, and where the file cannot be written,
everything is as it was. But once the file has been written nothing is taken back, not even if the
find text of that first preset cannot be compiled.

* `Session.on_goOn`: taking the fields from the first preset that is left.
* `Session.deletion_of_selected`: the answers, with what becomes of session, file and user.
* `Session.Stranded`: when a deletion that has been written ends in an error.
* `Session.deletion_error_iff`: no other deletion fails, and what such a one leaves behind.
-/

namespace Relabel

theorem Store.without_eq_self_iff {s : Store} {name : String} :
    s.without name = s ↔ s.dirty = false ∧ s.holds name = false := by
  have hnone : s.holds name = false ↔ ∀ p ∈ s.presets, p.name ≠ name := by
    rw [← Bool.not_eq_true, holds, Catalogue.holds_iff]
    simp [presets]
  obtain ⟨path, ⟨title, version, ps⟩, dirty⟩ := s
  rw [hnone]
  simp [without, Catalogue.without, presets, @eq_comm _ false, and_comm]

namespace Session

variable {s s' : Session} {w w' : World} {name : String} {p : Preset} {e : Error}

/-! ## Going on with another preset -/

/-- The fields are those of the preset, the template without its illegal characters. -/
theorem fields_withPreset [Find.Engine] (h : s.withPreset p = .ok s') :
    s'.selected = some p.name ∧ s'.find = p.find ∧ s'.replace = sanitize p.replace := by
  unfold withPreset at h
  cases hf : s.withFind p.find with
  | error e => exact nomatch hf ▸ h
  | ok s₁ =>
    rw [hf] at h
    cases h
    obtain ⟨pattern, -, rfl⟩ := withFind_eq_ok hf
    obtain ⟨proposed, hr, -⟩ :=
      withReplace_eq { s with pattern, find := p.find }.refreshed.settled p.replace
    rw [hr, settled_eq]
    refine ⟨rfl, ?_, rfl⟩
    rw [settled_eq]
    rfl

theorem on_goOn [Find.Engine] (o : DeleteOutcome) (s : Session) (w : World) :
    (loadFirst >>= fun _ => pure o).on s w = match s.store.presets with
      | [] => (.ok o, { s with selected := none }, w)
      | first :: _ =>
        match s.withPreset first with
        | .error e => (.error e, s, w)
        | .ok s' => (.ok o, s', { w with journal := w.journal ++ s'.findNote }) := by
  rw [SessionAct.on_bind, on_loadFirst]
  cases s.store.presets with
  | nil => rfl
  | cons first rest =>
    dsimp only
    rw [loadPreset, on_adopt]
    cases s.withPreset first <;> rfl

/-- The session has gone on with the first preset of its store, or without any. -/
structure GoneOn (s s' : Session) : Prop where
  store : s'.store = s.store
  first {p : Preset} {rest : List Preset} : s.store.presets = p :: rest →
    s'.selected = some p.name ∧ s'.find = p.find ∧ s'.replace = sanitize p.replace
  none : s.store.presets = [] → s' = { s with selected := none }

theorem hears_findNote (s : Session) (w : World) :
    w.Hears [] { w with journal := w.journal ++ s.findNote } := by
  refine .tell w ?_
  unfold findNote
  split <;> rfl

theorem goneOn_goOn [Find.Engine] {o o' : DeleteOutcome}
    (h : (loadFirst >>= fun _ => pure o).on s w = (.ok o', s', w')) :
    s.GoneOn s' ∧ w'.disk = w.disk ∧ w.Hears [] w' := by
  rw [on_goOn] at h
  split at h
  · next hps =>
    cases h
    refine ⟨⟨rfl, fun hcons => ?_, fun _ => rfl⟩, rfl, .refl w⟩
    rw [hps] at hcons
    cases hcons
  next first rest hps =>
  split at h
  · cases h
  next s₁ hp =>
  cases h
  refine ⟨⟨store_withPreset hp, fun hcons => ?_, fun hnil => ?_⟩, rfl, hears_findNote _ w⟩
  · rw [hps] at hcons
    cases hcons
    exact fields_withPreset hp
  · rw [hps] at hnil
    cases hnil

theorem answer_goOn [Find.Engine] (o : DeleteOutcome) (s : Session) (w : World) :
    ((loadFirst >>= fun _ => pure o).on s w).1 = .ok o ↔
      s.store.presets.head?.all (usable · s.mode) = true := by
  rw [on_goOn]
  cases s.store.presets with
  | nil => simp
  | cons first rest =>
    simp only [List.head?_cons, Option.all_some, ← toBool_withPreset]
    cases s.withPreset first <;> simp [Except.toBool]

/-! ## Answers -/

/-- Neither the question nor the talk of the presets decides whether the file can be written. -/
theorem savable_afterRemoval (s : Session) (name : String) (w : World) :
    (s.store.without name).savable (s.afterRemoval name w) = s.store.savable w :=
  Store.savable_congr (s.talk_afterRemoval name w).disk rfl

theorem hears_tellKept (s : Session) (name : String) (e : Error) (w : World) :
    w.Hears [.error "Error" s!"Check permissions on {s.store.path}: {e.message}"]
      (Deed.on (s.tellKept name e) w).2 :=
  (World.Hears.notify ..).silence (.tell _ rfl)

section

variable [Find.Engine] (w : World) (ho : s.state.isFinal = false) (hsel : s.selected = some name)
include ho hsel

theorem deletePreset_of_declined (ha : (Deed.on askDelete w).1 = false) :
    deletePreset.on s w = (.ok (.declined name), s, (Deed.on askDelete w).2) := by
  have hd := deletion_deletePreset w ho
  generalize deletePreset.on s w = r at hd ⊢
  cases hd with
  | nothing hn => rw [hsel] at hn; cases hn
  | declined hn =>
    rw [hsel] at hn
    cases hn
    rfl
  | unwritten _ hyes | written _ hyes => rw [ha] at hyes; cases hyes

theorem deletePreset_of_unsavable (ha : (Deed.on askDelete w).1 = true)
    (hsave : s.store.savable w = false) : ∃ e w',
      Act.on (s.store.without name).save (s.afterRemoval name w) = (.error e, w') ∧
      deletePreset.on s w = (.ok (.deleted name false), s, (Deed.on (s.tellKept name e) w').2) := by
  have hd := deletion_deletePreset w ho
  generalize deletePreset.on s w = r at hd ⊢
  cases hd with
  | nothing hn => rw [hsel] at hn; cases hn
  | declined _ hno => rw [ha] at hno; cases hno
  | unwritten hn _ hs =>
    rw [hsel] at hn
    cases hn
    exact ⟨_, _, hs, rfl⟩
  | written _ _ hs =>
    rw [← savable_afterRemoval, Store.savable_of_ok hs] at hsave
    cases hsave

theorem deletePreset_of_savable (ha : (Deed.on askDelete w).1 = true)
    (hsave : s.store.savable w = true) : ∃ w',
      Act.on (s.store.without name).save (s.afterRemoval name w) =
        (.ok (s.store.without name), w') ∧
      deletePreset.on s w = (loadFirst >>= fun _ => pure (.deleted name true)).on
        { s with store := s.store.without name } w' := by
  have hd := deletion_deletePreset w ho
  generalize deletePreset.on s w = r at hd ⊢
  cases hd with
  | nothing hn => rw [hsel] at hn; cases hn
  | declined _ hno => rw [ha] at hno; cases hno
  | unwritten _ _ hs =>
    rw [← savable_afterRemoval, Store.savable_of_error hs] at hsave
    cases hsave
  | written hn _ hs =>
    rw [hsel] at hn
    cases hn
    exact ⟨_, hs, rfl⟩

end

/-- When the user says no, and when the file cannot be written, nothing changes, and in the second
case the user is told of one error. Otherwise store and file have lost the presets of the name and
nothing else, and the session goes on with the first preset that is left. -/
theorem deletion_of_selected [Find.Engine] (w : World) (ho : s.state.isFinal = false)
    (hsel : s.selected = some name) :
    let agreed := (Deed.on askDelete w).1
    let left := s.store.presets.filter (·.name != name)
    let store : Store := ⟨s.store.path, { s.store.catalogue with presets := left }, false⟩
    let r := deletePreset.on s w
    (agreed = false → r.1 = .ok (.declined name) ∧ r.2.1 = s ∧ w.Talk r.2.2 ∧
      w.Hears [.confirm deleteTitle deleteMessage] r.2.2) ∧
    (agreed = true → s.store.savable w = false →
      r.1 = .ok (.deleted name false) ∧ r.2.1 = s ∧ w.disk.SameLeaves r.2.2.disk ∧
      ∃ e : Error, w.Hears [.confirm deleteTitle deleteMessage,
        .error "Error" s!"Check permissions on {s.store.path}: {e.message}"] r.2.2) ∧
    (r.1 = .ok (.deleted name true) ↔ agreed = true ∧ s.store.savable w = true ∧
      left.head?.all (usable · s.mode) = true) ∧
    (r.1 = .ok (.deleted name true) →
      r.2.1.store = store ∧ Store.readCatalogue r.2.2.disk store.path = .ok store.catalogue ∧
      (∀ first rest, left = first :: rest → r.2.1.selected = some first.name ∧
        r.2.1.find = first.find ∧ r.2.1.replace = sanitize first.replace) ∧
      (left = [] → r.2.1 = { s with store, selected := none }) ∧
      w.Hears [.confirm deleteTitle deleteMessage] r.2.2) := by
  intro agreed left store r
  have hr : r = deletePreset.on s w := rfl
  cases ha : agreed with
  | false =>
    rw [deletePreset_of_declined w ho hsel ha] at hr
    rw [hr]
    refine ⟨fun _ => ⟨rfl, rfl, .confirm .., .confirm ..⟩, nofun, ⟨nofun, nofun⟩, nofun⟩
  | true =>
  cases hsave : s.store.savable w with
  | false =>
    obtain ⟨e, w', hs, he⟩ := deletePreset_of_unsavable w ho hsel ha hsave
    rw [he] at hr
    rw [hr]
    have hleaves := Store.sameLeaves_of_save_error hs
    rw [(s.talk_afterRemoval name w).disk] at hleaves
    have hears := ((s.hears_afterRemoval name w).silence (Store.hears_of_save hs)).trans
      (s.hears_tellKept name e w')
    exact ⟨nofun, fun _ _ => ⟨rfl, rfl, hleaves, _, hears⟩, ⟨nofun, nofun⟩, nofun⟩
  | true =>
    obtain ⟨w', hs, he⟩ := deletePreset_of_savable w ho hsel ha hsave
    obtain ⟨-, -, hread, -⟩ := Store.save_ok hs
    have hears := (s.hears_afterRemoval name w).silence (Store.hears_of_save hs)
    rw [he] at hr
    refine ⟨nofun, nofun, ?_, fun hok => ?_⟩
    · rw [hr, answer_goOn]
      simp only [true_and]
      rfl
    · obtain ⟨hgone, hdisk, hquiet⟩ := goneOn_goOn (hr.symm.trans (Prod.ext hok rfl))
      exact ⟨hgone.store, hdisk ▸ hread, fun _ _ => hgone.first, hgone.none, hears.silence hquiet⟩

attribute [local instance] Find.Engine.boundless in
/-- Three presets of a name, two of them alike, are to be deleted from a store that has not been
saved, first while a directory is in the place of the file. -/
theorem deletion_of_selected_thrice :
    let setting : Setting := ⟨⟨2024, 2, 21, 15, 7, 0⟩, "feature", "kieran"⟩
    let store : Store := ⟨.ofString "p", ⟨"t", "1", [⟨"n", "a", "b"⟩, ⟨"m", "x*", "y/z"⟩,
      ⟨"n", "a", "b"⟩, ⟨"k", "", ""⟩, ⟨"n", "", "c"⟩]⟩, true⟩
    let world (d : Disk) : World := ⟨d, [], [], setting.now, .fixed none true [], [], 0⟩
    let blocked := world ⟨[.folder 0 [(Utf8.encode "p", 1)], .folder 0 []], 0⟩
    let free := world ⟨[.folder 0 []], 0⟩
    ∃ s w, Act.on (begin ⟨[], []⟩ setting .none store .legacy) blocked = (.ok s, w) ∧
      s.state.isFinal = false ∧ s.selected = some "n" ∧
      (deletePreset.on s blocked).1 = .ok (.deleted "n" false) ∧
      (deletePreset.on s blocked).2.1.store = store ∧
      (deletePreset.on s free).1 = .ok (.deleted "n" true) ∧
      (deletePreset.on s free).2.1.store =
        ⟨store.path, ⟨"t", "1", [⟨"m", "x*", "y/z"⟩, ⟨"k", "", ""⟩]⟩, false⟩ ∧
      (deletePreset.on s free).2.1.selected = some "m" ∧
      (deletePreset.on s free).2.1.find = "x*" ∧ (deletePreset.on s free).2.1.replace = "y_z" := by
  intro setting store world blocked free
  let begun := Act.on (begin ⟨[], []⟩ setting .none store .legacy) blocked
  let s := ((loadPreset ⟨"n", "a", "b"⟩).on
    (blank ⟨[], []⟩ setting .none store .legacy) blocked).2.1
  have hb : begun = (.ok s, begun.2) := rfl
  have ho : s.state.isFinal = false := by decide +kernel
  have hsel : s.selected = some "n" := rfl
  obtain ⟨-, hkept, -, -⟩ := deletion_of_selected blocked ho hsel
  obtain ⟨-, -, hanswer, hgone⟩ := deletion_of_selected free ho hsel
  obtain ⟨hfalse, hsame, -⟩ := hkept (by decide +kernel) (by decide +kernel)
  have htrue := hanswer.mpr (by decide +kernel)
  obtain ⟨hstore, -, hfirst, -⟩ := hgone htrue
  obtain ⟨hselected, hfind, hreplace⟩ := hfirst ⟨"m", "x*", "y/z"⟩ [⟨"k", "", ""⟩] rfl
  refine ⟨s, begun.2, hb, ho, hsel, hfalse, congrArg Session.store hsame, htrue, hstore, hselected,
    hfind, hreplace.trans (by decide)⟩

/-! ## Deletions that fail -/

/-- A deletion ends in an error after it has been written: the user agrees, the file can be written,
and the find text of the first preset that is left cannot be compiled. -/
structure Stranded [Find.Engine] (s : Session) (w : World) (name : String) (e : Error) : Prop where
  selected : s.selected = some name
  agreed : (Deed.on askDelete w).1 = true
  savable : s.store.savable w = true
  unusable : ∃ first rest, (s.store.without name).presets = first :: rest ∧
    Find.Pattern.compile first.find s.mode = .error e

/-- A deletion that is stranded has been written. -/
theorem Stranded.on_deletePreset [Find.Engine] (h : s.Stranded w name e)
    (ho : s.state.isFinal = false) :
    ∃ w', deletePreset.on s w = (.error e, { s with store := s.store.without name }, w') ∧
      Store.readCatalogue w'.disk s.store.path = .ok (s.store.catalogue.without name) ∧
      w.Hears [.confirm deleteTitle deleteMessage] w' := by
  obtain ⟨hsel, ha, hsave, first, rest, hps, hc⟩ := h
  obtain ⟨w', hs, he⟩ := deletePreset_of_savable w ho hsel ha hsave
  obtain ⟨-, -, hread, -⟩ := Store.save_ok hs
  have hfails : ({ s with store := s.store.without name } : Session).withPreset first = .error e :=
    withPreset_eq_error_iff.mpr hc
  refine ⟨w', ?_, hread, (s.hears_afterRemoval name w).silence (Store.hears_of_save hs)⟩
  rw [he, on_goOn]
  dsimp only
  rw [hps]
  dsimp only
  rw [hfails]

theorem stranded_of_error [Find.Engine] (ho : s.state.isFinal = false)
    (h : (deletePreset.on s w).1 = .error e) : ∃ name, s.Stranded w name e := by
  have hd := deletion_deletePreset w ho
  generalize deletePreset.on s w = r at h hd
  cases hd with
  | nothing | declined | unwritten => cases h
  | @written name w' hsel ha hs =>
    have hsave := Store.savable_of_ok hs
    rw [savable_afterRemoval] at hsave
    rw [on_goOn] at h
    dsimp only at h
    split at h
    · cases h
    next first rest hps =>
    split at h
    · next hp =>
      cases h
      have hc := withPreset_eq_error_iff.mp hp
      exact ⟨name, hsel, ha, hsave, first, rest, hps, hc⟩
    · cases h

/-- Deleting the selected preset fails where it is stranded and nowhere else. The fields, the
proposed names and the selection are then as they were, but store and file have lost the presets of
the name; this is as before only if there were none of them and no unsaved edits. -/
theorem deletion_error_iff [Find.Engine] (w : World) (ho : s.state.isFinal = false) (e : Error) :
    let r := deletePreset.on s w
    (r.1 = .error e ↔ ∃ name, s.Stranded w name e) ∧
      ∀ name, s.Stranded w name e →
        r.2.1 = { s with store := s.store.without name } ∧
        Store.readCatalogue r.2.2.disk s.store.path = .ok (s.store.catalogue.without name) ∧
        w.Hears [.confirm deleteTitle deleteMessage] r.2.2 ∧
        (r.2.1 = s ↔ s.store.dirty = false ∧ s.store.holds name = false) := by
  intro r
  refine ⟨⟨stranded_of_error ho, fun ⟨name, h⟩ => ?_⟩, fun name h => ?_⟩
  · obtain ⟨w', he, -⟩ := h.on_deletePreset ho
    exact congrArg Prod.fst he
  · obtain ⟨w', he, hread, hears⟩ := h.on_deletePreset ho
    have hr : r = _ := he
    rw [hr, ← Store.without_eq_self_iff]
    exact ⟨rfl, hread, hears, congrArg store, fun hstore => by rw [hstore]⟩

attribute [local instance] Find.Engine.sized in
/-- A preset that has never been written is deleted from a store whose only other preset has too
many wildcards, while there is no file yet. -/
theorem deletion_error_unwritten :
    let wild : Preset := ⟨"a", String.ofList (List.replicate 20000 '*'), ""⟩
    let setting : Setting := ⟨⟨2024, 2, 21, 15, 7, 0⟩, "feature", "kieran"⟩
    let store : Store := ⟨.ofString "p", ⟨"", "", [wild, ⟨"b", "x", "y"⟩]⟩, true⟩
    let s : Session := { blank ⟨[], []⟩ setting .none store .anySequence with
      find := "x", replace := "y", selected := some "b" }
    let w : World := ⟨⟨[.folder 0 []], 0⟩, [], [], setting.now, .fixed none true [], [], 0⟩
    s.state.isFinal = false ∧ ∃ e, (deletePreset.on s w).1 = .error e ∧
      (deletePreset.on s w).2.1 = { s with store := ⟨store.path, ⟨"", "", [wild]⟩, false⟩ } ∧
      (deletePreset.on s w).2.1 ≠ s := by
  intro wild setting store s w
  have ho : s.state.isFinal = false := rfl
  have hsave : s.store.savable w = true := by decide +kernel
  obtain ⟨e, he⟩ : ∃ e, Find.Pattern.compile wild.find s.mode = .error e :=
    Find.Pattern.compile_replicate (by decide)
  have hstranded : s.Stranded w "b" e := ⟨rfl, rfl, hsave, wild, [], rfl, he⟩
  obtain ⟨hiff, hafter⟩ := deletion_error_iff w ho e
  obtain ⟨hleft, -, -, hsame⟩ := hafter "b" hstranded
  refine ⟨ho, e, hiff.mpr ⟨"b", hstranded⟩, hleft, fun heq => ?_⟩
  obtain ⟨hclean, -⟩ := hsame.mp heq
  cases hclean

/-- Two presets, the second one with a find text that there is no room for. -/
def strandedStore : Store :=
  ⟨.ofString "p", ⟨"", "", [⟨"a", "sh", "x"⟩,
    ⟨"b", String.ofList (List.replicate 20000 '?'), "y"⟩]⟩, false⟩

/-- A world with these presets on its disk. -/
def strandedWorld : World :=
  ⟨⟨[.folder 0 [(Utf8.encode "p", 1)], .file (Utf8.encode strandedStore.catalogue.render)], 0⟩,
    [], [], blockedSetting.now, .scripted [] [true] [], [], 0⟩

attribute [local instance] Find.Engine.sized in
/-- The session at its start, with the first of the presets selected. -/
def strandedSession : Session :=
  ((loadPreset ⟨"a", "sh", "x"⟩).on (blank loneSelection blockedSetting .none strandedStore .legacy)
    strandedWorld).2.1

attribute [local instance] Find.Engine.sized in
theorem reachable_strandedSession :
    Reachable loneSelection blockedSetting .none .legacy strandedSession :=
  ⟨strandedStore, strandedWorld, _, _, [], rfl, rfl⟩

attribute [local instance] Find.Engine.sized in
/-- A deletion that fails is not undone: the first of two presets is gone from store and file, and
is still selected. -/
theorem deletion_not_undone :
    let wild : Preset := ⟨"b", String.ofList (List.replicate 20000 '?'), "y"⟩
    let setting : Setting := ⟨⟨2024, 2, 21, 15, 7, 0⟩, "feature", "kieran"⟩
    let selection : Selection := ⟨[.listed "sh010" .clip (.ok none) false], []⟩
    ∃ s w, Reachable selection setting .none .legacy s ∧ s.state.isFinal = false ∧
      s.store.presets = [⟨"a", "sh", "x"⟩, wild] ∧ s.selected = some "a" ∧
      Store.readCatalogue w.disk s.store.path = .ok s.store.catalogue ∧
      ∃ e s' w', deletePreset.on s w = (.error e, s', w') ∧ s'.store.presets = [wild] ∧
        Store.readCatalogue w'.disk s'.store.path = .ok s'.store.catalogue ∧
        s'.selected = some "a" := by
  intro wild setting selection
  let s := strandedSession
  let w := strandedWorld
  let disk := w.disk
  have hplace : disk.place true (.ofString "p") (Path.ofString "p").endsInSlash =
      .ok (.entry 0 (Utf8.encode "p") (some 1) false) := by decide +kernel
  have htext : disk.pathExists (.ofString "p") = true ∧
      disk.readText (.ofString "p") = .ok strandedStore.catalogue.render :=
    Disk.readText_of_place hplace rfl
  have hread : Store.readCatalogue w.disk s.store.path = .ok s.store.catalogue :=
    Store.readCatalogue_of_render htext.1 htext.2
  -- Whether the file can be written does not depend on the long text.
  have hblank : Store.savable ⟨.ofString "p", .blank, false⟩ w = true := by decide +kernel
  have hsave : s.store.savable w = true := hblank ▸ Store.savable_congr rfl rfl
  have hps : (s.store.without "a").presets = [wild] := rfl
  obtain ⟨e, hwild⟩ : ∃ e, Find.Pattern.compile wild.find s.mode = .error e :=
    Find.Pattern.compile_replicate (by decide)
  have hstranded : s.Stranded w "a" e := ⟨rfl, rfl, hsave, wild, [], hps, hwild⟩
  obtain ⟨w', he, hafter, -⟩ := hstranded.on_deletePreset rfl
  exact ⟨s, w, reachable_strandedSession, rfl, rfl, rfl, hread, e, _, w', he, hps, hafter, rfl⟩

end Session
end Relabel
