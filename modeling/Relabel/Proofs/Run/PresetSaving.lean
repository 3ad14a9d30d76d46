import Relabel.Proofs.Run.Plan

/-!
# Runs that save a preset

A run that saves a preset hands the name of the preset to its session once. A name that is blank is
refused there, and as there is no other one nothing is saved; the run does not fail for that.

* `Run.savePreset_ok`: what has happened in a run that has not failed.
* `Run.preset_saved`: the preset is then in the file, unless its name is blank.
-/

namespace Relabel

variable {name find replace : String} {w w' : World} {s s' : Session} {others : Prompter}

namespace Session

theorem on_askForName_named (h : w.prompter = .named (some name) others) (offered : Option String)
    (hb : Text.isBlankText name = false) : Deed.on (askForName offered (patience w)) w =
      (some name, { w with prompter := .named none others }) := by
  obtain ⟨disk, changes, environment, now, _, journal, refreshes⟩ := w
  obtain rfl := h
  unfold patience askForName
  rw [Deed.on_bind, World.on_ask]
  simp [Prompter.askName, hb]

/-- A name that is blank is refused, and there is none when the session asks again. -/
theorem on_askForName_named_blank (h : w.prompter = .named (some name) others)
    (offered : Option String) (hb : Text.isBlankText name = true) :
    (Deed.on (askForName offered (patience w)) w).1 = none := by
  have hp : patience w = 2 := by
    rw [patience, h]
    rfl
  rw [hp]
  unfold askForName
  rw [Deed.on_bind, World.on_ask, h]
  dsimp only [Prompter.askName]
  rw [if_pos hb]
  rfl

/-- A session that is given one name, and every permission, saves under that name unless it is
blank. -/
theorem saved_of_named {outcome : SaveOutcome} (ho : s.state.isFinal = false)
    (h : savePreset.on s w = (.ok outcome, s', w')) (hp : w.prompter = .named (some name) others)
    (hyes : ∀ title message, (others.confirm title message).answer = true)
    (hkept : ∀ asked, outcome ≠ s.keptAs asked false) :
    (Text.isBlankText name = true → w'.disk = w.disk ∧ w'.changes = w.changes) ∧
      (Text.isBlankText name = false → ∃ store v v',
        Act.on (s.storeWith name).save v = (.ok store, v') ∧ w'.disk = v'.disk) := by
  have hs := saving_savePreset w ho
  rw [h] at hs
  refine ⟨fun hb => ?_, fun hb => ?_⟩
  · have hnone := on_askForName_named_blank hp s.selected hb
    cases hs with
    | cancelled ha =>
      have ht := talk_of_askForName ha
      exact ⟨ht.disk, ht.changes⟩
    | declined ha | written ha | unwritten ha =>
      rw [ha] at hnone
      cases hnone
  · have hasked := on_askForName_named hp s.selected hb
    cases hs with
    | cancelled ha =>
      rw [hasked] at ha
      cases ha
    | declined ha _ hno =>
      rw [hasked] at ha
      cases ha
      have hanswer := hyes overwriteTitle overwriteMessage
      exact absurd (hno.symm.trans hanswer) nofun
    | written ha _ hs ht =>
      rw [hasked] at ha
      cases ha
      exact ⟨_, _, _, hs, ht.disk⟩
    | unwritten => exact absurd rfl (hkept _)

end Session

namespace Run

variable {summary : Summary} {store : Store} {basis : Selection × Resolver × Find.Mode}
  {f r : String}

/-- A run that saves a preset and does not fail has set the fields and saved them in its session,
and the session has not said that the file could not be written. -/
theorem savePreset_ok [Find.Engine] (hs : s.Filled basis store f r)
    (h : (savePreset name find replace).on s w = (.ok summary, s', w')) :
    ∃ s₁ w₁ outcome s₂ w₂, s₁.Filled basis store find (sanitize replace) ∧
      w₁.prompter = .named (some name) w.prompter ∧ w₁.disk = w.disk ∧ w₁.changes = w.changes ∧
      Session.savePreset.on s₁ w₁ = (.ok outcome, s₂, w₂) ∧
      (∀ asked, outcome ≠ s₁.keptAs asked false) ∧ w'.disk = w₂.disk ∧ w'.changes = w₂.changes := by
  unfold savePreset at h
  obtain ⟨_, s₁, w₁, hfind, h⟩ := SessionAct.bind_eq_ok h
  obtain ⟨_, s₂, w₂, hreplace, h⟩ := SessionAct.bind_eq_ok h
  rw [SessionAct.on_deed_bind, Deed.on_modify] at h
  obtain ⟨outcome, s₃, w₃, hsave, h⟩ := SessionAct.bind_eq_ok h
  rw [SessionAct.on_deed_bind, Deed.on_modify, SessionAct.on_get_bind] at h
  have hsaid := Session.quiet_setFind find s w
  rw [hfind] at hsaid
  rw [Session.on_setFind _ _ hs.upToDate.isFinal] at hfind
  have hs₁ := hs.withFind (Session.of_adopt hfind)
  rw [Session.on_setReplace _ _ hs₁.upToDate.isFinal] at hreplace
  cases hreplace
  refine ⟨_, { w₁ with prompter := .named (some name) w₁.prompter }, outcome, s₃, w₃,
    hs₁.withReplace replace, congrArg _ hsaid.prompter, hsaid.disk, hsaid.changes, hsave, ?_, ?_⟩
  · intro asked ho
    unfold Session.keptAs at ho
    split at ho <;>
    · subst ho
      cases h
  · cases outcome with
    | added _ persisted | overwritten _ persisted =>
      cases persisted <;> cases h
      exact ⟨rfl, rfl⟩
    | declined | cancelled =>
      cases h
      exact ⟨rfl, rfl⟩

variable {o : Options}

/-- A run that saves a preset and does not fail has put the preset into the file that its settings
name: it is the first of its name there, and the presets of other names are those that were there
before. A blank name is the exception; the run has then left the disk as it was. -/
theorem preset_saved [Find.Engine]
    (h : Act.on (execute (.savePreset name find replace) o) w = (.ok summary, w'))
    (hyes : ∀ title message, (w.prompter.confirm title message).answer = true) :
    ∃ settings path before, (Act.on (Settings.readOrDefault o.settings?) w).1 = .ok settings ∧
      settings.presetsPath w = .ok path ∧ Store.readCatalogue w.disk path = .ok before ∧
      (Text.isBlankText name = true → w'.disk = w.disk ∧ w'.changes = w.changes) ∧
      (Text.isBlankText name = false → ∃ after, Store.readCatalogue w'.disk path = .ok after ∧
        after.get? name = some ⟨name, find, sanitize replace⟩ ∧
        (after.presets.filter (·.name != name)).Perm (before.presets.filter (·.name != name))) := by
  unfold execute at h
  obtain ⟨setup, w₁, hsetup, h⟩ := Act.bind_eq_ok h
  obtain ⟨settings, path, c, hs, hp, hc, rfl⟩ := load_eq_ok hsetup
  have hload : w.Says w₁ := by simpa [hsetup] using quiet_load o w
  refine ⟨settings, path, c, hs, hp, hc, ?_⟩
  obtain ⟨⟨summary', s'⟩, w₂, hsession, h⟩ := Act.bind_eq_ok h
  cases h
  rw [on_inSession] at hsession
  split at hsession
  · cases hsession
  next s w₃ hstart =>
  split at hsession
  · cases hsession
  next hsaved =>
  cases hsession
  have hsaid := Session.quiet_start (targetFor o) (.ofItems []) (Setup.settingOf settings w)
    ⟨path, c, false⟩ (modeFor o settings) w₁
  rw [hstart] at hsaid
  replace hsaid := hload.trans hsaid
  obtain ⟨s₁, v, outcome, s₂, v', hfilled, hprompter, hdisk, hchanges, hsave, hkept, hdisk',
    hchanges'⟩ := savePreset_ok (filled_of_start hstart) hsaved
  rw [hsaid.prompter] at hprompter
  obtain ⟨hblank, hnamed⟩ :=
    Session.saved_of_named hfilled.upToDate.isFinal hsave hprompter hyes hkept
  refine ⟨fun hb => ?_, fun hb => ?_⟩
  · obtain ⟨hd, hch⟩ := hblank hb
    exact ⟨hdisk'.trans (hd.trans (hdisk.trans hsaid.disk)),
      hchanges'.trans (hch.trans (hchanges.trans hsaid.changes))⟩
  · obtain ⟨store, u, u', hs, hd⟩ := hnamed hb
    obtain ⟨-, -, hread, -⟩ := Store.save_ok hs
    let p : Preset := ⟨name, find, sanitize replace⟩
    have hpreset : s₁.asPreset name = p := by
      rw [Session.asPreset, hfilled.find_eq, hfilled.replace_eq]
    have hstored : s₁.storeWith name = (⟨path, c, false⟩ : Store).edit (c.keep p) := by
      rw [Session.storeWith, hfilled.store_eq, hpreset]
    rw [hstored] at hread
    exact ⟨c.keep p, hdisk' ▸ hd ▸ hread, Catalogue.get?_keep c p, Catalogue.others_keep c p⟩

/-- Settings that name a preset file, and a file where two presets have one name. -/
def twinDisk : Disk where
  nodes := [.folder 0 [(Utf8.encode "c", 1), (Utf8.encode "p", 2)],
    .file (Utf8.encode "presets_file: p\n"),
    .file (Utf8.encode ("settings: \x7bscript_name: \x7bversion: \x7bpresets: " ++
      "[\x7bname: y\x7d, \x7bname: x\x7d, \x7bname: y, find: a\x7d]\x7d\x7d\x7d\n"))]
  current := 0

/-- Someone who agrees to everything. -/
def twinWorld : World :=
  ⟨twinDisk, [], [], ⟨2024, 2, 21, 15, 7, 0⟩, .fixed none true [], [], 0⟩

def twinOptions : Options :=
  ⟨some (.ofString "c"), none, none, none, none, [], false, false, false⟩

attribute [local instance] Find.Engine.boundless in
theorem preset_saved_over_twin :
    ∃ summary w' path before after,
      Act.on (execute (.savePreset "y" "v1" "a/b") twinOptions) twinWorld = (.ok summary, w') ∧
      Store.readCatalogue twinDisk path = .ok before ∧
      Store.readCatalogue w'.disk path = .ok after ∧
      after.get? "y" = some ⟨"y", "v1", "a_b"⟩ ∧
      (after.presets.filter (·.name != "y")).Perm (before.presets.filter (·.name != "y")) := by
  let r := Act.on (execute (.savePreset "y" "v1" "a/b") twinOptions) twinWorld
  have hr : r.1 = .ok { state? := some .previewing } := by decide +kernel
  obtain ⟨-, path, before, -, -, hbefore, -, hsaved⟩ :=
    preset_saved (Prod.ext hr rfl : r = (_, r.2)) fun _ _ => rfl
  obtain ⟨after, hafter, hget, hothers⟩ := hsaved (by decide)
  have hclean : sanitize "a/b" = "a_b" := by decide +kernel
  rw [hclean] at hget
  exact ⟨_, r.2, path, before, after, Prod.ext hr rfl, hbefore, hafter, hget, hothers⟩

attribute [local instance] Find.Engine.boundless in
/-- Under a blank name nothing is saved. The user is told that the name is invalid, and the run does
not fail. -/
theorem preset_not_saved_blank :
    let r := Act.on (execute (.savePreset " " "v1" "v2") twinOptions) twinWorld
    r.1 = .ok { state? := some .previewing } ∧ r.2.disk = twinDisk ∧
      (Store.readCatalogue r.2.disk (.ofString "p")).toOption.map Catalogue.names =
        some ["y", "x", "y"] ∧
      r.2.prompter = .fixed none true ["Invalid preset name: must not be empty"] := by
  decide +kernel

end Run
end Relabel
