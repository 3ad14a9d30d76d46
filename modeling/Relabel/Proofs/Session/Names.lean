import Relabel.Proofs.Preset.History
import Relabel.Proofs.Preset.Names
import Relabel.Proofs.Session.Deletion

/-!
# The names of the presets of a session

A session works on a store and now and then on its file. Either may be ahead of the other: a preset
may be in the store and could not be written, and the store is given up when an older file is read
again. The names of both stay different from each other, and they stay in order once a new preset
has been written.

* `Store.Revises`: an operation makes a revision of the store or reads the file
  (`Session.Operation.revises`).
* `Store.Both`: a property of the store and of its file. Every operation keeps it if revisions do
  (`Store.Both.perform`).
* `Session.Tended`: a run during which nobody else changes the file.
* `Session.names_unique_ascending`: the names during such a run.
-/

namespace Relabel

variable {s s' : Session} {w w' w₁ w₂ w₃ : World} {path : Path} {P : Catalogue → Prop}

/-! ## One operation -/

/-- What becomes of a store that a session works on. -/
inductive Store.Revises (s : Store) (w : World) : Store → Prop
  | revised {s' : Store} : s.catalogue.Revision s'.catalogue → Revises s w s'
  | read {s' : Store} : readCatalogue w.disk s.path = .ok s'.catalogue → Revises s w s'

namespace Session

open Store (Revises Undisturbed)

theorem revises_of_eq (h : s'.store = s.store) : s.store.Revises w s'.store :=
  .revised (h ▸ .same)

theorem revises_reloadPresets (w : World) (h : s.state.isFinal = false) :
    s.store.Revises w (reloadPresets.on s w).2.1.store := by
  rw [on_reloadPresets w h]
  cases hr : Act.on s.store.reload w with
  | mk r w' =>
  cases r with
  | error e => exact revises_of_eq rfl
  | ok store =>
    obtain ⟨c, hc, rfl⟩ := Store.reload_ok hr
    exact .read hc

theorem revises_savePreset (w : World) (h : s.state.isFinal = false) :
    s.store.Revises w (savePreset.on s w).2.1.store := by
  have hs := saving_savePreset w h
  generalize savePreset.on s w = r at hs
  cases hs with
  | cancelled | declined => exact revises_of_eq rfl
  | written ha _ hs =>
    obtain ⟨rfl, -⟩ := Store.save_ok hs
    exact .revised (Catalogue.revision_keep _ (isBlankText_of_askForName ha))
  | unwritten ha => exact .revised (Catalogue.revision_keep _ (isBlankText_of_askForName ha))

theorem revises_deletePreset [Find.Engine] (w : World) (h : s.state.isFinal = false) :
    s.store.Revises w (deletePreset.on s w).2.1.store := by
  rcases deletePreset_cases w h with ⟨-, he⟩ | ⟨name, w', -, ⟨-, he⟩ | ⟨-, he | ⟨store, hleft, he⟩⟩⟩
  · rw [he]
    exact revises_of_eq rfl
  · rw [he]
    exact revises_of_eq rfl
  · rw [he]
    exact revises_of_eq rfl
  · rw [he, SessionAct.on_bind_pure loadFirst, (talk_loadFirst { s with store } w').1]
    exact .revised (.remove name hleft)

theorem Operation.revises [Find.Engine] (o : Operation) (s : Session) (w : World) :
    s.store.Revises w (o.perform s w).1.store := by
  cases h : s.state.isFinal with
  | true =>
    rw [o.perform_of_final w h]
    exact revises_of_eq rfl
  | false =>
    cases o with
    | setFind text => exact revises_of_eq (talk_setFind text w h).1
    | setReplace text => exact revises_of_eq (talk_setReplace text w h).1
    | selectPreset name => exact revises_of_eq (talk_selectPreset name w h).1
    | reloadPresets => exact revises_reloadPresets w h
    | savePreset => exact revises_savePreset w h
    | deletePreset => exact revises_deletePreset w h
    | confirm host =>
      rw [perform, on_confirm host w h]
      exact revises_of_eq rfl
    | cancel => exact revises_of_eq (talk_cancel w h).1

/-- A preset of a new name that has been written has been put in order before. -/
theorem ascending_of_added {name : String}
    (h : savePreset.on s w = (.ok (.added name true), s', w')) :
    s'.store.path = s.store.path ∧ s'.store.catalogue.Ascending ∧ w.Wrote s.store.path w' ∧
      Store.readCatalogue w'.disk s.store.path = .ok s'.store.catalogue := by
  cases hf : s.state.isFinal with
  | true =>
    rw [savePreset, on_guarded_of_final _ w hf] at h
    cases h
  | false =>
  have hs := saving_savePreset w hf
  rw [h] at hs
  generalize ho : (.added name true : SaveOutcome) = o at hs
  cases hs with
  | cancelled => cases ho
  | declined => cases ho
  | @written asked _ _ _ _ _ ha ht hs ht' =>
    obtain ⟨rfl, -, hread, hwrote⟩ := Store.save_ok hs
    have hnew : ¬ s.store.holds asked = true := by
      intro hheld
      rw [keptAs, if_pos hheld] at ho
      cases ho
    refine ⟨rfl, ?_, ?_, ht'.disk ▸ hread⟩
    · have hkeep :
          (s.storeWith asked).catalogue = (s.store.catalogue.add (s.asPreset asked)).sort :=
        if_neg hnew
      change (s.storeWith asked).catalogue.Ascending
      rw [hkeep]
      exact Catalogue.ascending_sort _
    · have hasked := (talk_of_askForName ha).trans ht
      exact (World.wrote_congr hasked.changes.symm ht'.changes).mpr hwrote
  | unwritten =>
    unfold keptAs at ho
    split at ho <;> cases ho

end Session

/-! ## Store and file -/

/-- A property holds of the catalogue in the store and of that in the file. -/
structure Store.Both (P : Catalogue → Prop) (path : Path) (s : Store) (w : World) : Prop where
  path_eq : s.path = path
  store : P s.catalogue
  file : ∃ c, readCatalogue w.disk path = .ok c ∧ P c

namespace Store.Both

/-- The file is as it was unless what is in the store has been written. -/
theorem perform [Find.Engine] (hP : ∀ {c c'}, c.Revision c' → P c → P c')
    (h : Both P path s.store w) {o : Session.Operation} (ho : o.perform s w₁ = (s', w₂))
    (u : Undisturbed path w w₁ w₂ w₃) : Both P path s'.store w₃ := by
  have hd := o.dealing s w₁
  have hr := o.revises s w₁
  rw [ho] at hd hr
  obtain ⟨rfl, hs, c, hc, hPc⟩ := h
  have hstore : P s'.store.catalogue := by
    cases hr with
    | revised hrev => exact hP hrev hs
    | read hread =>
      -- What has been read is what was in the file, or the file was out of reach.
      rcases u.begins with hsame | ⟨e, he⟩
      · rw [hsame, hc] at hread
        cases hread
        exact hPc
      · rw [hread] at he
        cases he
  have hfile (hn : ¬ w₁.Wrote s.store.path w₂) :
      ∃ c, readCatalogue w₃.disk s.store.path = .ok c ∧ P c :=
    ⟨c, (u.unwritten hn).trans hc, hPc⟩
  generalize s'.store = store at hd hstore
  cases hd with
  | kept hn => exact ⟨rfl, hstore, hfile hn⟩
  | edited _ hn => exact ⟨rfl, hstore, hfile hn⟩
  | read hn => exact ⟨rfl, hstore, hfile hn⟩
  | written hw hread => exact ⟨rfl, hstore, _, (u.written hw).trans hread, hstore⟩

end Store.Both

/-! ## Runs -/

namespace Session

open Store (Both Undisturbed)

/-- One operation of a session, while nobody else changes the file. -/
inductive Stage [Find.Engine] (path : Path) : Session × World → Session × World → Prop
  | mk (o : Operation) {s s' : Session} {w w₁ w₂ w₃ : World} : o.perform s w₁ = (s', w₂) →
    Undisturbed path w w₁ w₂ w₃ → Stage path (s, w) (s', w₃)

/-- Any number of operations, while nobody else changes the file. -/
abbrev Tended [Find.Engine] (path : Path) : Session × World → Session × World → Prop :=
  Relation.ReflTransGen (Stage path)

/-- What a revision keeps is kept during a run. -/
theorem Tended.both [Find.Engine] (hP : ∀ {c c'}, c.Revision c' → P c → P c')
    {r r' : Session × World} (h : Tended path r r') (hb : Both P path r.1.store r.2) :
    Both P path r'.1.store r'.2 := by
  induction h with
  | refl => exact hb
  | tail _ ht ih =>
    obtain ⟨o, ho, u⟩ := ht
    exact ih.perform hP ho u

/-! ## The theorem -/

variable {store : Store} {selection : Selection} {setting : Setting} {lookup : Lookup}
  {mode : Find.Mode} {s₀ : Session} {w₀ : World}

/-- A session is started with the store that has been loaded from a file where the names are
different from each other, and from then on nobody else changes the file. Then the names stay
different, in the store and in the file. A preset with a blank name that is in neither of them does
not come into either by an operation. Once saving a preset has been answered by saying that it is
new and has been written, the names stay in order in both. -/
theorem names_unique_ascending [Find.Engine] (hl : Act.on (Store.load path) w₀ = (.ok store, w))
    (hb : Act.on (begin selection setting lookup store mode) w₁ = (.ok s₀, w₂))
    (u : Undisturbed path w w₁ w₂ w₃) (hn : store.catalogue.names.Nodup)
    (h : Tended path (s₀, w₃) (s, w')) :
    Both (·.names.Nodup) path s.store w' ∧
      (∀ (o : Operation) v₁ t v₂ v', o.perform s v₁ = (t, v₂) → Undisturbed path w' v₁ v₂ v' →
        ∀ p : Preset, Text.isBlankText p.name = true → Both (p ∉ ·.presets) path s.store w' →
          Both (p ∉ ·.presets) path t.store v') ∧
      ∀ name v₁ t v₂ v', savePreset.on s v₁ = (.ok (.added name true), t, v₂) →
        Undisturbed path w' v₁ v₂ v' → ∀ t' v, Tended path (t, v') (t', v) →
          Both Catalogue.Ascending path t'.store v := by
  have hstart : Both (·.names.Nodup) path s₀.store w₃ := by
    obtain ⟨hpath, -, hclean⟩ := Store.Agrees.load hl
    obtain ⟨rfl, hc⟩ := Store.begin_ok hb
    have hfresh : s₀.store.dirty = false :=
      congrArg Store.dirty (Store.load_eq_ok (congrArg Prod.fst hl))
    have hunwritten : ¬ w₁.Wrote path w₂ := fun hw =>
      w₁.not_wrote_self ((World.wrote_congr rfl hc).mp hw)
    exact ⟨hpath, hn, _, (u.unwritten hunwritten).trans (hclean hfresh), hn⟩
  have hboth : Both (·.names.Nodup) path s.store w' := h.both (fun hr hc => hr.nodup hc) hstart
  refine ⟨hboth, ?_, ?_⟩
  · intro o v₁ t v₂ v' ho u p hp hin
    exact hin.perform (fun hr hc hm => hc (hr.mem_of_isBlankText hm hp)) ho u
  · intro name v₁ t v₂ v' hadded u t' v ht
    obtain ⟨hpath, hasc, hwrote, hread⟩ := ascending_of_added hadded
    rw [hboth.path_eq] at hpath hwrote hread
    exact ht.both (fun hr hc => hr.ascending hc)
      ⟨hpath, hasc, _, (u.written hwrote).trans hread, hasc⟩

attribute [local instance] Find.Engine.boundless in
/-- The names of a file are not in order. A new preset cannot be written at first, since the file is
out of reach, and is given up by reading the file again; then it is written. -/
theorem names_unique_ascending_retried :
    let path : Path := .ofString "p"
    let text := "settings: \x7bscript_name: \x7bversion: \x7bpresets: " ++
      "[\x7bname: c\x7d, \x7bname: a\x7d]\x7d\x7d\x7d\n"
    let disk : Disk := ⟨[.folder 0 [(Utf8.encode "p", 1)], .file (Utf8.encode text)], 0⟩
    let w : World := ⟨disk, [], [], ⟨2024, 2, 21, 15, 7, 0⟩,
      .scripted [some "b", some " ", some "b"] [] [], [], 0⟩
    let store : Store := ⟨path, ⟨"", "", [⟨"c", "", ""⟩, ⟨"a", "", ""⟩]⟩, false⟩
    ∃ w₁ s₀ w₂ s w₃ t w₄, Act.on (Store.load path) w = (.ok store, w₁) ∧
      Act.on (begin ⟨[], []⟩ ⟨w.now, "", ""⟩ .none store .legacy) w₁ = (.ok s₀, w₂) ∧
      Tended path (s₀, w₂) (s, w₃) ∧ Both (·.names.Nodup) path s.store w₃ ∧
      s.store.catalogue.names = ["c", "a"] ∧ savePreset.on s w₃ = (.ok (.added "b" true), t, w₄) ∧
      Both (⟨" ", "", ""⟩ ∉ ·.presets) path t.store w₄ ∧
      Both Catalogue.Ascending path t.store w₄ := by
  intro path text disk w store
  let blocked : Disk := ⟨[.folder 0 [(Utf8.encode "p", 1)], .folder 0 []], 0⟩
  let out (w : World) : World := { w with disk := blocked }
  let w₁ := (Act.on (Store.load path) w).2
  let begun := Act.on (begin ⟨[], []⟩ ⟨w.now, "", ""⟩ .none store .legacy) w₁
  let s₀ := ((loadPreset ⟨"c", "", ""⟩).on
    (blank ⟨[], []⟩ ⟨w.now, "", ""⟩ .none store .legacy) w₁).2.1
  let failed := Operation.savePreset.perform s₀ (out begun.2)
  let back : World := { failed.2 with disk := begun.2.disk }
  let r := Operation.reloadPresets.perform failed.1 back
  have hl : Act.on (Store.load path) w = (.ok store, w₁) :=
    Prod.ext (by decide +kernel : (Act.on (Store.load path) w).1 = .ok store) rfl
  have hb : begun = (.ok s₀, begun.2) := rfl
  have hread : Store.readCatalogue blocked path =
      .error (.persistence "read" path "Is a directory (os error 21)") := by decide +kernel
  let saved := savePreset.on r.1 r.2
  have hanswer : saved.1 = .ok (.added "b" true) := by decide +kernel
  have hunchanged : failed.2.changes = (out begun.2).changes := by decide +kernel
  have hfile : Store.readCatalogue r.2.disk path = .ok store.catalogue := by decide +kernel
  have hstore : r.1.store = store := by decide +kernel
  have u₁ : Undisturbed path begun.2 (out begun.2) failed.2 back :=
    .of_outOfReach ⟨_, hread⟩ hunchanged rfl
  have u₂ : Undisturbed path back back r.2 r.2 :=
    .of_sameFile (hfile.trans (by decide +kernel))
  have h : Tended path (s₀, begun.2) r :=
    (Relation.ReflTransGen.single (.mk .savePreset rfl u₁)).tail (.mk .reloadPresets rfl u₂)
  have hadded : savePreset.on r.1 r.2 = (.ok (.added "b" true), saved.2.1, saved.2.2) :=
    Prod.ext hanswer rfl
  have hperform : Operation.savePreset.perform r.1 r.2 = (saved.2.1, saved.2.2) := rfl
  obtain ⟨hnodup, hblank, hasc⟩ :=
    names_unique_ascending hl hb (.of_sameFile rfl) (by decide +kernel) h
  obtain ⟨hpath, -, hwrote, -⟩ := ascending_of_added hadded
  have u : Undisturbed path r.2 r.2 saved.2.2 saved.2.2 := .of_wrote (hnodup.path_eq ▸ hwrote)
  have hin : Both (⟨" ", "", ""⟩ ∉ ·.presets) path r.1.store r.2 :=
    ⟨hnodup.path_eq, hstore ▸ (by decide), _, hfile, by decide⟩
  exact ⟨w₁, s₀, begun.2, r.1, r.2, _, _, hl, hb, h, hnodup, hstore ▸ rfl, hadded,
    hblank .savePreset _ _ _ _ hperform u _ (by decide) hin, hasc _ _ _ _ _ hadded u _ _ .refl⟩

end Session
end Relabel
