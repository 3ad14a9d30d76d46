import Relabel.Proofs.Run.Outcome

/-!
# What a run plans

* `Run.plansOf_eq`: the plans of a session, item by item.
* `Run.Reads`: what a run reads before it plans.
* `Run.plans_of_preview`: what is planned for each item that a run reads.
-/

namespace Relabel

/-! ## Plans of a session -/

theorem Resolver.resolveAll_ofSelection (setting : Setting) (selection : Selection)
    (lookup : Lookup) (template : String) :
    (ofSelection setting selection lookup).resolveAll template = selection.members.map fun item =>
      Token.applyAll (Token.merge setting.tokens (lookup.tokens item)) template := by
  refine List.ext_getElem? fun i => ?_
  rw [List.getElem?_map]
  cases h : selection.members[i]? with
  | some item => exact getElem?_resolveAll h template
  | none =>
    refine List.getElem?_eq_none ?_
    rw [length_resolveAll, size_ofSelection]
    exact List.getElem?_eq_none_iff.mp h

namespace Run

variable {o : Options} {w w' : World} {p : Preview}

/-- In a session whose fields have been set there is a plan for each member. -/
theorem plansOf_eq [Find.Engine] {s : Session} {selection : Selection} {setting : Setting}
    {lookup : Lookup} {mode : Find.Mode} {store : Store} {find template : String}
    (h : s.Filled (selection, .ofSelection setting selection lookup, mode) store find template) :
    plansOf s = selection.members.map fun item =>
      ⟨item.name, if find = "" then item.name else s.pattern.apply item.name
        (Token.applyAll (Token.merge setting.tokens (lookup.tokens item)) template)⟩ := by
  obtain ⟨hu, hb, -, rfl, rfl⟩ := h
  obtain ⟨rfl, hr, rfl⟩ : s.selection = selection ∧
      s.resolver = .ofSelection setting selection lookup ∧ s.mode = mode := by
    simpa [Session.basis] using hb
  have hproposed : s.proposed = s.selection.members.map fun item =>
      if s.find = "" then item.name else s.pattern.apply item.name
        (Token.applyAll (Token.merge setting.tokens (lookup.tokens item)) s.replace) := by
    rw [hu.proposed, hu.resolved, hr, Resolver.resolveAll_ofSelection]
    unfold Session.propose
    simp only [Find.Pattern.isEmpty_of_compile hu.pattern]
    split
    · rfl
    · exact (List.zipWith_map ..).trans List.zipWith_self
  rw [plansOf, Session.preview, Session.names, Selection.names, hproposed, List.zip_map',
    List.map_map]
  rfl

/-! ## What a run reads -/

/-- Where the options say that the items are. -/
def targetFor (o : Options) : Target := if o.timeline then .timeline else .mediaPanel

/-- The mode that the options ask for, or else that of the settings. -/
def modeFor (o : Options) (settings : Settings) : Find.Mode :=
  if o.anySequence then .anySequence else settings.mode

/-- Items of the kind get new names. -/
def takesPart (o : Options) (kind : Kind) : Bool := !(o.timeline && kind == .transition)

theorem not_contains_leftOut (o : Options) (kind : Kind) :
    (!(targetFor o).leftOut.contains kind) = takesPart o kind := by
  unfold takesPart targetFor
  cases o.timeline with
  | false => rfl
  | true => cases kind <;> rfl

theorem members_targetFor (o : Options) (items : List Item) :
    (⟨items, (targetFor o).leftOut⟩ : Selection).members =
      items.filter fun item => takesPart o item.kind :=
  List.filter_congr fun item _ => not_contains_leftOut o item.kind

/-- What a run reads before it plans. -/
structure Reads (o : Options) (w : World) (settings : Settings) (c : Catalogue)
    (items : List Item) : Prop where
  settled : (Act.on (Settings.readOrDefault o.settings?) w).1 = .ok settings
  presets : ∃ path, settings.presetsPath w = .ok path ∧ Store.readCatalogue w.disk path = .ok c
  gathered : ∃ source w', w.Says w' ∧ (Act.on (gather o) w').1 = .ok (source, items)

theorem load_eq_ok {setup : Setup} (h : Act.on (Setup.load o) w = (.ok setup, w')) :
    ∃ settings path c, (Act.on (Settings.readOrDefault o.settings?) w).1 = .ok settings ∧
      settings.presetsPath w = .ok path ∧ Store.readCatalogue w.disk path = .ok c ∧
      setup = ⟨modeFor o settings, Setup.settingOf settings w, ⟨path, c, false⟩, targetFor o⟩ := by
  unfold Setup.load at h
  obtain ⟨settings, w₁, hs, h⟩ := Act.bind_eq_ok h
  obtain ⟨_, w₂, hg, h⟩ := Act.bind_eq_ok h
  cases hg
  -- What is read after the settings is read in a world that differs in its journal only.
  have hw : w.Says w₁ := by simpa [hs] using Settings.quiet_readOrDefault o.settings? w
  obtain ⟨es, rfl⟩ := hw
  split at h
  · cases h
  next path hp =>
  obtain ⟨store, w₃, hstore, h⟩ := Act.bind_eq_ok h
  obtain ⟨_, w₄, hd, h⟩ := Act.bind_eq_ok h
  obtain ⟨_, w₅, hg, h⟩ := Act.bind_eq_ok h
  rw [Store.on_load] at hstore
  cases hg
  cases hd
  cases h
  cases hc : Store.readCatalogue w.disk path with
  | error e =>
    rw [hc] at hstore
    cases hstore
  | ok c =>
    rw [hc] at hstore
    cases hstore
    exact ⟨settings, path, c, by rw [hs], hp, hc, rfl⟩

theorem target_of_preview [Find.Engine] (h : Act.on (preview o) w = (.ok p, w')) :
    p.setup.target = targetFor o := by
  obtain ⟨_, _, _, _, hsetup, -, -, -⟩ := preview_eq_ok h
  obtain ⟨_, _, _, -, -, -, hset⟩ := load_eq_ok hsetup
  rw [hset]

/-! ## The plans -/

/-- A run that comes to its preview plans, for each item that it reads and that takes part, in order,
its name together with the name that comes of replacing the find text in the run's mode. The fields
are those that are asked for, or else those of the preset that is asked for, or else those of the
first preset.

That such a run does not fail either assumes that the manifest it has read can be written, as on
every disk that is modelled (`Disk.writeFile_of_readText`). -/
theorem plans_of_preview [Find.Engine] (h : Act.on (preview o) w = (.ok p, w')) :
    ∃ settings c pattern summary, Reads o w settings c p.items ∧
      (∀ name, o.preset? = some name → c.holds name = true) ∧
      Find.Pattern.compile (findFor o c) (modeFor o settings) = .ok pattern ∧
      (Act.on (execute .rename o) w).1 = .ok summary ∧ summary.plans = plansOf p.session ∧
      plansOf p.session = (p.items.filter fun item => takesPart o item.kind).map fun item =>
        ⟨item.name, if findFor o c = "" then item.name else pattern.apply item.name
          (Token.applyAll (Token.merge (Setup.settingOf settings w).tokens
            ((targetFor o).lookup.tokens item)) (templateFor o c))⟩ := by
  obtain ⟨w₁, w₂, -, -, hsetup, hitems, -, -⟩ := preview_eq_ok h
  obtain ⟨settings, path, c, hs, hp, hc, hset⟩ := load_eq_ok hsetup
  obtain ⟨hheld, hf⟩ := filled_of_preview h
  obtain ⟨summary, w₃, he, hplans⟩ := execute_of_preview h
  rw [hset] at hf hheld
  have hw : w.Says w₁ := by simpa [hsetup] using quiet_load o w
  refine ⟨settings, c, p.session.pattern, summary, ⟨hs, ⟨path, hp, hc⟩, p.source, w₁, hw, ?_⟩,
    hheld, ?_, ?_, hplans, ?_⟩
  · rw [hitems]
  · have hmode : p.session.mode = modeFor o settings := congrArg (·.2.2) hf.basis_eq
    rw [← hf.find_eq, ← hmode]
    exact hf.upToDate.pattern
  · rw [he]
  · rw [plansOf_eq hf, members_targetFor]

attribute [local instance] Find.Engine.boundless in
/-- The second preset is asked for, with another template, in a timeline. -/
theorem plans_of_preview_timeline :
    let manifest := "items: [\x7bname: a1, kind: clip, context: k\x7d, " ++
      "\x7bname: a2, kind: transition\x7d]"
    let presets := "settings: \x7bscript_name: \x7bversion: \x7bpresets: " ++
      "[\x7bname: x\x7d, \x7bname: y, find: a*\x7d]\x7d\x7d\x7d"
    let disk : Disk := ⟨[.folder 0 [(Utf8.encode "m", 1), (Utf8.encode Settings.folderName, 2)],
      .file (Utf8.encode manifest), .folder 0 [(Utf8.encode Settings.presetFileName, 3)],
      .file (Utf8.encode presets)], 0⟩
    let w : World := ⟨disk, [], [("HOME", "/"), ("XDG_CONFIG_HOME", "/")],
      ⟨2024, 2, 21, 15, 7, 0⟩, .fixed none true [], [], 0⟩
    let o : Options :=
      ⟨none, none, some "s|<shot name>", some "y", some (.ofString "m"), [], true, true, false⟩
    ∃ p w' summary, Act.on (preview o) w = (.ok p, w') ∧
      (Act.on (execute .rename o) w).1 = .ok summary ∧
      summary.plans = [⟨"a1", "s_k"⟩] := by
  intro manifest presets disk w o
  have hp : (Act.on (preview o) w).1.toOption.map (plansOf ·.session) =
      some [⟨"a1", "s_k"⟩] := by decide +kernel
  obtain ⟨p, hp, hplans⟩ := Option.map_eq_some_iff.mp hp
  have hpreview : Act.on (preview o) w = (.ok p, (Act.on (preview o) w).2) := by
    generalize Act.on (preview o) w = r at hp ⊢
    obtain ⟨_ | _, _⟩ := r <;> cases hp
    rfl
  obtain ⟨-, -, -, summary, -, -, -, he, hs, -⟩ := plans_of_preview hpreview
  exact ⟨p, _, summary, hpreview, he, hs.trans hplans⟩

end Run
end Relabel
