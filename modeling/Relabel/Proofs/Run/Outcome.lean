import Relabel.Proofs.Item.RoundTrip
import Relabel.Proofs.Run.Fields
import Relabel.Proofs.Session.Listed

/-!
# How runs end

A run that has come to its preview reports what it has planned, whatever becomes of it. Before the
user has agreed it has done nothing, and where it fails it has not come to its preview.

* `Run.source_cases`: where the items come from.
* `Run.on_execute_of_givenUp`, `Run.on_execute_of_agreed`: the two ways from a preview on.
* `Run.execute_of_preview`: a run that has come to its preview does not fail.
* `Run.execute_leaves_disk`: the runs that leave the disk as it is.
-/

namespace Relabel

variable {w w' : World}

namespace Run

variable {o : Options} {p : Preview}

/-! ## Items -/

theorem gather_cases {source : Source} {items : List Item}
    (h : Act.on (gather o) w = (.ok (source, items), w')) :
    (o.manifest? = none ∧ source = .folders) ∨ ∃ path m, o.manifest? = some path ∧
      Manifest.ofFile w.disk path = .ok m ∧ source = .manifest path m ∧ items = m.items := by
  unfold gather at h
  cases ho : o.manifest? with
  | none =>
    refine .inl ⟨rfl, ?_⟩
    rw [ho] at h
    dsimp only at h
    split at h <;>
    · obtain ⟨_, _, -, h⟩ := Act.bind_eq_ok h
      cases h
      rfl
  | some path =>
    rw [ho] at h
    obtain ⟨m, _, hm, h⟩ := Act.bind_eq_ok h
    cases h
    rw [Manifest.on_load] at hm
    exact .inr ⟨path, m, rfl, (Prod.mk.inj hm).1, rfl, rfl⟩

theorem source_cases [Find.Engine] (h : Act.on (preview o) w = (.ok p, w')) :
    (o.manifest? = none ∧ p.source = .folders) ∨ ∃ path m, o.manifest? = some path ∧
      Manifest.ofFile w.disk path = .ok m ∧ p.source = .manifest path m ∧ p.items = m.items := by
  obtain ⟨w₁, w₂, w₃, s, hsetup, hitems, -, -⟩ := preview_eq_ok h
  have hw : w.Says w₁ := by simpa [hsetup] using quiet_load o w
  exact hw.disk ▸ gather_cases hitems

/-! ## The end of a run -/

theorem on_finish_of_renamed_eq_zero {summary : Summary} (h : summary.renamed = 0)
    (source : Source) (s : Session) (w : World) :
    Act.on (finish source summary s) w = (.ok summary, w) := by
  unfold finish
  rw [h]
  rfl

theorem on_finish_folders (summary : Summary) (s : Session) (w : World) :
    Act.on (finish .folders summary s) w = (.ok summary, w) := by
  unfold finish
  split <;> rfl

/-- The manifest that has been read is written without fail. -/
theorem on_finish_manifest {path : Path} {m : Manifest} (hm : Manifest.ofFile w.disk path = .ok m)
    {summary : Summary} (h : 0 < summary.renamed) (s : Session) :
    ∃ w', Act.on (finish (.manifest path m) summary s) w = (.ok summary, w') ∧
      Manifest.ofFile w'.disk path = .ok (m.withItems s.selection.items) := by
  obtain ⟨d, hw, hd⟩ := Manifest.save_of_ofFile hm (m.withItems s.selection.items)
  unfold finish
  rw [if_pos h, Act.on_bind, Source.update, Act.on_bind, Manifest.save, World.on_writeFile, hw]
  exact ⟨_, rfl, hd⟩

section

variable [Find.Engine]

/-! ## From the preview on -/

/-- The items of the session are those of the run. -/
theorem selection_of_preview (h : Act.on (preview o) w = (.ok p, w')) :
    p.session.selection = ⟨p.items, p.setup.target.leftOut⟩ :=
  congrArg Prod.fst (filled_of_preview h).2.basis_eq

theorem isFinal_of_preview (h : Act.on (preview o) w = (.ok p, w')) :
    p.session.state.isFinal = false :=
  (filled_of_preview h).2.upToDate.isFinal

theorem says_of_preview (h : Act.on (preview o) w = (.ok p, w')) : w.Says w' := by
  simpa [h] using quiet_preview o w

/-- A dry run, and one that is declined, gives its plans up and changes nothing. -/
theorem on_execute_of_givenUp (h : Act.on (preview o) w = (.ok p, w'))
    (hn : o.dryRun = true ∨ agrees p.session w' = false) :
    ∃ w₁, Act.on (execute .rename o) w = (.ok (givenUp p.session), w₁) ∧ w₁.disk = w.disk ∧
      w₁.changes = w.changes := by
  have hw := says_of_preview h
  obtain ⟨s, w₁, ho, hd, hc⟩ := on_offer_of_givenUp w' (isFinal_of_preview h) hn
  rw [on_execute_rename, h]
  dsimp only
  rw [ho]
  dsimp only
  rw [on_finish_of_renamed_eq_zero rfl]
  exact ⟨w₁, rfl, hd.trans hw.disk, hc.trans hw.changes⟩

theorem on_execute_of_agreed (h : Act.on (preview o) w = (.ok p, w')) (hd : o.dryRun = false)
    (ha : agrees p.session w' = true) :
    ∃ w₁ w₂, w₁.disk = w.disk ∧ w₂.disk = (Deed.on p.session.renameMembers w₁).2.disk ∧
      w.Asks [] [.confirm renameTitle (renameMessage (plansOf p.session))] w₁ ∧
      (Deed.on p.session.renameMembers w₁).2.Asks [] [] w₂ ∧
      let done := (Deed.on p.session.renameMembers w₁).1
      Act.on (execute .rename o) w = Act.on (finish p.source
        (confirmed p.session (done.map Prod.snd)) { p.session with
          selection := p.session.selection.withMembers (done.map Prod.fst)
          state := .confirmed }) w₂ := by
  have hw := says_of_preview h
  obtain ⟨w₁, w₂, ho, hd₁, ha₁, hd₂, ha₂⟩ := on_offer_of_agreed w' (isFinal_of_preview h) hd ha
  refine ⟨w₁, w₂, hd₁.trans hw.disk, hd₂, (World.Asks.of_eq hw.changes hw.prompter).trans ha₁, ha₂,
    ?_⟩
  dsimp only
  rw [on_execute_rename, h]
  dsimp only
  rw [ho]

/-! ## Manifests -/

section

variable {path : Path} {m : Manifest}

theorem manifest_of_source (h : Act.on (preview o) w = (.ok p, w'))
    (hp : p.source = .manifest path m) :
    Manifest.ofFile w.disk path = .ok m ∧ p.items = m.items := by
  obtain ⟨-, hs⟩ | ⟨path', m', -, hm, hs, hi⟩ := source_cases h
  · exact nomatch hp ▸ hs
  · cases hp.symm.trans hs
    exact ⟨hm, hi⟩

theorem on_renameMembers_of_manifest (h : Act.on (preview o) w = (.ok p, w'))
    (hp : p.source = .manifest path m) (w₁ : World) :
    w₁.Says (Deed.on p.session.renameMembers w₁).2 ∧
      m.withItems (p.session.selection.withMembers
        ((Deed.on p.session.renameMembers w₁).1.map Prod.fst)).items =
      m.relisted p.setup.target.leftOut p.session.proposed := by
  obtain ⟨-, hi⟩ := manifest_of_source h hp
  have hs : p.session.selection = ⟨m.items, p.setup.target.leftOut⟩ := hi ▸ selection_of_preview h
  obtain ⟨hr, hw⟩ :=
    Session.on_renameAll_toItem (m.members p.setup.target.leftOut) p.session.proposed w₁
  rw [Session.renameMembers, hs, m.members_items]
  exact ⟨hw, by rw [hr]; rfl⟩

/-- A run over a manifest writes it if an item has been renamed. -/
theorem execute_of_manifest (h : Act.on (preview o) w = (.ok p, w'))
    (hp : p.source = .manifest path m) :
    ∃ summary w₁, Act.on (execute .rename o) w = (.ok summary, w₁) ∧
      summary.plans = plansOf p.session ∧
      (summary.renamed = 0 → w₁.disk = w.disk) ∧
      (0 < summary.renamed → Manifest.ofFile w₁.disk path =
        .ok (m.relisted p.setup.target.leftOut p.session.proposed)) := by
  by_cases hn : o.dryRun = true ∨ agrees p.session w' = false
  · obtain ⟨w₁, he, hd, -⟩ := on_execute_of_givenUp h hn
    exact ⟨_, w₁, he, rfl, fun _ => hd, nofun⟩
  simp only [not_or, Bool.not_eq_true, Bool.not_eq_false] at hn
  obtain ⟨w₁, w₂, hd₁, hd₂, -, -, he⟩ := on_execute_of_agreed h hn.1 hn.2
  obtain ⟨hw, hl⟩ := on_renameMembers_of_manifest h hp w₁
  -- Names change in memory only: the file is still the one that has been read.
  have hdisk : w₂.disk = w.disk := hd₂.trans (hw.disk.trans hd₁)
  dsimp only at he
  rw [he]
  rcases Nat.eq_zero_or_pos
    (confirmed p.session ((Deed.on p.session.renameMembers w₁).1.map Prod.snd)).renamed with hz | hr
  · rw [on_finish_of_renamed_eq_zero hz]
    exact ⟨_, w₂, rfl, rfl, fun _ => hdisk, fun hr => absurd hz (Nat.ne_of_gt hr)⟩
  · have hm : Manifest.ofFile w₂.disk path = .ok m := hdisk ▸ (manifest_of_source h hp).1
    obtain ⟨w₃, hf, hfile⟩ := on_finish_manifest hm hr _
    rw [hp, hf]
    exact ⟨_, w₃, rfl, rfl, fun hz => absurd hz (Nat.ne_of_gt hr), fun _ => hl ▸ hfile⟩

end

/-! ## What every run does -/

/-- A run that has come to its preview reports what it has shown. It does not fail, since there is
only the manifest left to write: the disk is one on which a file that has been read can be written
(`Disk.writeFile_of_readText`). -/
theorem execute_of_preview (h : Act.on (preview o) w = (.ok p, w')) :
    ∃ summary w₁, Act.on (execute .rename o) w = (.ok summary, w₁) ∧
      summary.plans = plansOf p.session := by
  by_cases hn : o.dryRun = true ∨ agrees p.session w' = false
  · obtain ⟨w₁, he, -⟩ := on_execute_of_givenUp h hn
    exact ⟨_, w₁, he, rfl⟩
  rcases source_cases h with ⟨-, hs⟩ | ⟨path, m, -, -, hs, -⟩
  · simp only [not_or, Bool.not_eq_true, Bool.not_eq_false] at hn
    obtain ⟨w₁, w₂, -, -, -, -, he⟩ := on_execute_of_agreed h hn.1 hn.2
    dsimp only at he
    rw [hs, on_finish_folders] at he
    exact ⟨_, w₂, he, rfl⟩
  · obtain ⟨summary, w₁, he, hp, -⟩ := execute_of_manifest h hs
    exact ⟨summary, w₁, he, hp⟩

/-- A run that does not come to its preview fails, and has done nothing. -/
theorem preview_cases (o : Options) (w : World) :
    (∃ e w', Act.on (execute .rename o) w = (.error e, w') ∧ w.Says w') ∨
      ∃ p w', Act.on (preview o) w = (.ok p, w') := by
  have hw := quiet_preview o w
  rw [on_execute_rename]
  generalize Act.on (preview o) w = r at hw ⊢
  obtain ⟨e | p, w'⟩ := r
  · exact .inl ⟨e, w', rfl, hw⟩
  · exact .inr ⟨p, w', rfl⟩

theorem says_of_error {e : Error} (h : (Act.on (execute .rename o) w).1 = .error e) :
    w.Says (Act.on (execute .rename o) w).2 := by
  rcases preview_cases o w with ⟨_, _, he, hw⟩ | ⟨p, w', hp⟩
  · rwa [he]
  · obtain ⟨summary, w₁, he, -⟩ := execute_of_preview hp
    rw [he] at h
    cases h

omit [Find.Engine] in
theorem quiet_listPresets (store : Store) : (listPresets store).Quiet :=
  .ite (.tell _) (.tell _)

theorem quiet_execute_listPresets (o : Options) : (execute .listPresets o).Quiet :=
  .bind (quiet_load o) fun setup => .bind (.lift (quiet_listPresets setup.store)) fun _ => .pure _

theorem quiet_execute_listTokens (o : Options) : (execute .listTokens o).Quiet := by
  refine .bind (quiet_load o) fun setup => .bind (quiet_gather o) fun r => ?_
  obtain ⟨source, items⟩ := r
  dsimp only
  split
  · exact .throw _
  intro w
  rw [Act.on_bind, on_inSession]
  have hs := Session.quiet_start setup.target (.ofItems items) setup.setting setup.store
    setup.mode w
  generalize Act.on (Session.start setup.target (.ofItems items) setup.setting setup.store
    setup.mode) w = r at hs ⊢
  obtain ⟨_ | s, w'⟩ := r
  · exact hs
  · -- Nothing has been renamed, so that no manifest is written.
    exact hs.trans (.tell [.printed (tokensText s.resolver.offered Find.legend)] w')

/-- A run that is to show something, a dry run, a run whose user does not agree and a run that fails
leave everything on the disk as it is. -/
theorem execute_leaves_disk {action : Action} (o : Options) (w : World)
    (h : action = .listPresets ∨ action = .listTokens ∨ action = .rename ∧
      (o.dryRun = true ∨ (∀ message, (w.prompter.confirm renameTitle message).answer = false) ∨
        ∃ e, (Act.on (execute .rename o) w).1 = .error e)) :
    (Act.on (execute action o) w).2.disk = w.disk ∧
      (Act.on (execute action o) w).2.changes = w.changes := by
  have said {w' : World} (h : w.Says w') : w'.disk = w.disk ∧ w'.changes = w.changes :=
    ⟨h.disk, h.changes⟩
  rcases h with rfl | rfl | ⟨rfl, h⟩
  · exact said (quiet_execute_listPresets o w)
  · exact said (quiet_execute_listTokens o w)
  rcases preview_cases o w with ⟨_, _, he, hw⟩ | ⟨p, w', hp⟩
  · rw [he]
    exact said hw
  have given (hn : o.dryRun = true ∨ agrees p.session w' = false) :
      (Act.on (execute .rename o) w).2.disk = w.disk ∧
        (Act.on (execute .rename o) w).2.changes = w.changes := by
    obtain ⟨w₁, he, hd⟩ := on_execute_of_givenUp hp hn
    rw [he]
    exact hd
  rcases h with hd | hq | ⟨e, he⟩
  · exact given (.inl hd)
  · refine given (.inr ?_)
    -- The user has not been asked anything before.
    rw [agrees, (says_of_preview hp).prompter]
    exact hq _
  · exact said (says_of_error he)

end

attribute [local instance] Find.Engine.boundless in
/-- A user who does not agree, and one who would but asks for a preset that is not there. -/
theorem execute_leaves_disk_declined :
    let disk : Disk := ⟨[.folder 0 [(Utf8.encode "a", 1)], .file [0x78]], 0⟩
    let world (answer : Bool) : World :=
      ⟨disk, [], [("HOME", "/")], ⟨2024, 2, 21, 15, 7, 0⟩, .fixed none answer [], [], 0⟩
    let options (preset? : Option String) : Options :=
      ⟨none, some "a", some "b", preset?, none, [.ofString "a"], false, false, false⟩
    let declined := Act.on (execute .rename (options none)) (world false)
    let failed := Act.on (execute .rename (options (some "x"))) (world true)
    declined.1 = .ok { state? := some .cancelled, selected := 1, plans := [⟨"a", "b"⟩] } ∧
      declined.2.disk = disk ∧ failed.1 = .error (.run "No preset named x") ∧
      failed.2.disk = disk := by
  intro disk world options declined failed
  have hr : declined.1 =
        .ok { state? := some .cancelled, selected := 1, plans := [⟨"a", "b"⟩] } ∧
      failed.1 = .error (.run "No preset named x") := by decide +kernel
  refine ⟨hr.1, ?_, hr.2, ?_⟩
  · exact (execute_leaves_disk _ _ (.inr (.inr ⟨rfl, .inr (.inl fun _ => rfl)⟩))).1
  · exact (execute_leaves_disk _ _ (.inr (.inr ⟨rfl, .inr (.inr ⟨_, hr.2⟩)⟩))).1

end Run
end Relabel
