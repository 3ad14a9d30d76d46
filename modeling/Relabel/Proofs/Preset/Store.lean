import Relabel.Preset.Store
import Relabel.Proofs.Disk.Folders
import Relabel.Proofs.Disk.Writing
import Relabel.Proofs.Preset.RoundTrip
import Relabel.Proofs.World.Dialogue

/-!
# The traffic of a store with its file

* `World.Wrote`: a file has been written between two worlds.
* `Store.on_load`, `Store.on_reload`: reading leaves everything but the journal as it is.
* `Store.save_ok`, `Store.save_error`: what has been saved is read again, and where saving fails
  nothing has been written.
* `Store.savable`: whether a store can be saved, which its file system alone decides.
* `Store.file_round_trip`: reading gives back what has been written.
-/

namespace Relabel

/-- Between two worlds the file has been written. -/
def World.Wrote (path : Path) (w w' : World) : Prop :=
  ∃ content, Change.write path content ∈ w'.changes.drop w.changes.length

namespace Store

variable {s s' : Store} {w w' : World} {path : Path} {c : Catalogue}

/-! ## Reading -/

/-- The word that a file is missing. -/
def missingNote (path : Path) (w : World) : List Journal.Entry :=
  if w.disk.pathExists path then []
  else [.record .debug s!"No preset file at {path}, starting empty"]

theorem on_fetch (path : Path) (w : World) : Act.on (fetch path) w =
    (readCatalogue w.disk path, { w with journal := w.journal ++ missingNote path w }) := by
  unfold fetch
  rw [Act.on_bind, Act.on_lift, missingNote]
  dsimp only [World.on_getDisk]
  generalize readCatalogue w.disk path = answer
  cases w.disk.pathExists path with
  | true =>
    rw [if_pos rfl, List.append_nil]
    cases answer <;> rfl
  | false => cases answer <;> rfl

theorem on_load (path : Path) (w : World) : Act.on (load path) w =
    ((readCatalogue w.disk path).map fun c => ⟨path, c, false⟩,
      { w with journal := w.journal ++ missingNote path w }) := by
  unfold load
  rw [Act.on_bind, on_fetch]
  cases readCatalogue w.disk path <;> rfl

theorem on_reload (s : Store) (w : World) : Act.on s.reload w =
    ((readCatalogue w.disk s.path).map fun c => { s with catalogue := c, dirty := false },
      { w with journal := w.journal ++ missingNote s.path w }) := by
  unfold reload
  rw [Act.on_bind, on_fetch]
  cases readCatalogue w.disk s.path <;> rfl

/-! ## Writing -/

theorem readCatalogue_of_render {d : Disk} (he : d.pathExists path = true)
    (hr : d.readText path = .ok c.render) : readCatalogue d path = .ok c := by
  simp [readCatalogue, he, hr, Catalogue.ofText_render]

/-- Before a file is written the directories above it may be made, and nothing else. -/
theorem on_makeFolderFor (path : Path) (w : World) : ∃ r d, ∃ folders : List Path,
    Act.on (makeFolderFor path) w =
      (r, { w with disk := d, changes := w.changes ++ folders.map .makeFolders }) := by
  have nothing : w = { w with
      disk := w.disk
      changes := w.changes ++ ([] : List Path).map Change.makeFolders } := by simp
  unfold makeFolderFor
  cases path.parent? with
  | none => exact ⟨_, _, [], congrArg (Prod.mk _) nothing⟩
  | some folder =>
    dsimp only
    rw [Act.on_bind, Act.on_lift]
    dsimp only
    split
    · exact ⟨_, _, [folder], World.on_makeFolders folder w⟩
    · exact ⟨_, _, [], congrArg (Prod.mk _) nothing⟩

theorem on_save (s : Store) (w : World) : Act.on s.save w =
    match Act.on (makeFolderFor s.path) w with
    | (.error e, w') => (.error e, w')
    | (.ok _, w') =>
      match w'.disk.writeFile s.path (Utf8.encode s.catalogue.render) with
      | .error e => (.error (.persistence "write" s.path e.message), w')
      | .ok d => (.ok { s with dirty := false }, { w' with
          disk := d
          changes := w'.changes ++ [.write s.path (Utf8.encode s.catalogue.render)]
          journal := w'.journal ++
            [.record .debug s!"Saved {s.catalogue.presets.length} preset(s) to {s.path}"] }) := by
  unfold save
  rw [Act.on_bind]
  obtain ⟨_ | _, w'⟩ := Act.on (makeFolderFor s.path) w
  · rfl
  · dsimp only
    rw [Act.on_bind, World.on_writeFile]
    cases w'.disk.writeFile s.path (Utf8.encode s.catalogue.render) <;> rfl

theorem on_makeFolderFor_of_pathExists {folder : Path} (hp : path.parent? = some folder)
    (hf : w.disk.pathExists folder = true) : Act.on (makeFolderFor path) w = (.ok (), w) := by
  unfold makeFolderFor
  rw [hp]
  dsimp only
  rw [Act.on_bind, Act.on_lift]
  dsimp only [World.on_getDisk]
  rw [hf, Bool.or_true]
  rfl

/-- Where the directory of the file is there, nothing comes of saving a store that cannot be. -/
theorem eq_of_save_error {folder : Path} {e : Error} (h : Act.on s.save w = (.error e, w'))
    (hp : s.path.parent? = some folder) (hf : w.disk.pathExists folder = true) : w' = w := by
  rw [on_save, on_makeFolderFor_of_pathExists hp hf] at h
  dsimp only at h
  split at h
  · cases h
    rfl
  · cases h

theorem not_wrote_of_makeFolders {folders : List Path}
    (h : w'.changes = w.changes ++ folders.map .makeFolders) : ¬ w.Wrote path w' := by
  rintro ⟨content, hc⟩
  rw [h, List.drop_left] at hc
  obtain ⟨_, -, hm⟩ := List.mem_map.mp hc
  cases hm

/-- What has been saved stands in the file and is read again. -/
theorem save_ok (h : Act.on s.save w = (.ok s', w')) : s' = { s with dirty := false } ∧
    w'.disk.readText s.path = .ok s.catalogue.render ∧
    readCatalogue w'.disk s.path = .ok s.catalogue ∧ w.Wrote s.path w' := by
  obtain ⟨r, d, folders, hf⟩ := on_makeFolderFor s.path w
  rw [on_save, hf] at h
  split at h
  · cases h
  next hm =>
  cases hm
  split at h
  · cases h
  next d' hd =>
  cases h
  obtain ⟨he, hr⟩ := Disk.readText_writeFile hd
  refine ⟨rfl, hr, readCatalogue_of_render he hr, Utf8.encode s.catalogue.render, ?_⟩
  simp

/-- A store that has been saved is read again as it is. -/
theorem on_reload_of_save (h : Act.on s.save w = (.ok s', w')) :
    Act.on s'.reload w' = (.ok s', w') := by
  obtain ⟨rfl, hr, hc, -⟩ := save_ok h
  have hnote : missingNote s.path w' = [] := if_pos (Disk.pathExists_of_readText hr)
  rw [on_reload, hc, hnote, List.append_nil]
  rfl

/-- Where saving fails nothing has been written. -/
theorem save_error {e : Error} (h : Act.on s.save w = (.error e, w')) : ¬ w.Wrote s.path w' := by
  obtain ⟨r, d, folders, hf⟩ := on_makeFolderFor s.path w
  suffices hc : w'.changes = w.changes ++ folders.map .makeFolders from not_wrote_of_makeFolders hc
  rw [on_save, hf] at h
  split at h
  · next hm =>
    cases hm
    cases h
    rfl
  next hm =>
  cases hm
  split at h
  · cases h
    rfl
  · cases h

theorem sameLeaves_makeFolderFor (path : Path) (w : World) :
    w.disk.SameLeaves (Act.on (makeFolderFor path) w).2.disk := by
  unfold makeFolderFor
  cases path.parent? with
  | none => exact .refl w.disk
  | some folder =>
    dsimp only
    rw [Act.on_bind, Act.on_lift]
    dsimp only
    split
    · rw [World.on_makeFolders]
      exact w.disk.sameLeaves_makeFolders folder
    · exact .refl w.disk

/-- To make the directory of a file depends on the file system alone. -/
theorem makeFolderFor_congr (path : Path) (h : w'.disk = w.disk) :
    (Act.on (makeFolderFor path) w').1 = (Act.on (makeFolderFor path) w).1 ∧
      (Act.on (makeFolderFor path) w').2.disk = (Act.on (makeFolderFor path) w).2.disk := by
  unfold makeFolderFor
  cases path.parent? with
  | none => exact ⟨rfl, h⟩
  | some folder =>
    dsimp only
    rw [Act.on_bind, Act.on_bind, Act.on_lift, Act.on_lift]
    dsimp only [World.on_getDisk]
    rw [h]
    split
    · rw [World.on_makeFolders, World.on_makeFolders, h]
      exact ⟨rfl, rfl⟩
    · exact ⟨rfl, h⟩

/-- The store can be saved. -/
def savable (s : Store) (w : World) : Bool := (Act.on s.save w).1.toBool

theorem savable_of_ok (h : Act.on s.save w = (.ok s', w')) : s.savable w = true := by
  rw [savable, h]
  rfl

theorem savable_of_error {e : Error} (h : Act.on s.save w = (.error e, w')) :
    s.savable w = false := by
  rw [savable, h]
  rfl

/-- Whether a store can be saved depends on the file system and the path alone. -/
theorem savable_congr (h : w'.disk = w.disk) (hp : s'.path = s.path) :
    s'.savable w' = s.savable w := by
  obtain ⟨hr, hd⟩ := makeFolderFor_congr s.path h
  unfold savable
  rw [on_save, on_save, hp]
  generalize Act.on (makeFolderFor s.path) w = r at hr hd
  generalize Act.on (makeFolderFor s.path) w' = r' at hr hd
  obtain ⟨r, v⟩ := r
  obtain ⟨r', v'⟩ := r'
  dsimp only at hr hd
  subst hr
  cases r' with
  | error e => rfl
  | ok =>
    have hwrite := v.disk.toBool_writeFile s.path (Utf8.encode s.catalogue.render)
      (Utf8.encode s'.catalogue.render)
    dsimp only
    rw [hd]
    generalize v.disk.writeFile s.path (Utf8.encode s.catalogue.render) = r at hwrite ⊢
    generalize v.disk.writeFile s.path (Utf8.encode s'.catalogue.render) = r' at hwrite ⊢
    cases r <;> cases r' <;> first | rfl | cases hwrite

/-- Where saving fails all files and links are as they were. -/
theorem sameLeaves_of_save_error {e : Error} (h : Act.on s.save w = (.error e, w')) :
    w.disk.SameLeaves w'.disk := by
  have hm := sameLeaves_makeFolderFor s.path w
  rw [on_save] at h
  generalize Act.on (makeFolderFor s.path) w = r at h hm
  obtain ⟨_ | _, v⟩ := r
  · cases h
    exact hm
  · dsimp only at h
    split at h
    · cases h
      exact hm
    · cases h

/-- Saving asks the user nothing. -/
theorem hears_of_save {r : Except Error Store} (h : Act.on s.save w = (r, w')) : w.Hears [] w' := by
  obtain ⟨answer, d, folders, hf⟩ := on_makeFolderFor s.path w
  have quiet : w.journal = w.journal ++ [] := (List.append_nil _).symm
  rw [on_save, hf] at h
  cases answer with
  | error e =>
    cases h
    exact .of_journal rfl quiet rfl
  | ok =>
    dsimp only at h
    cases hd : d.writeFile s.path (Utf8.encode s.catalogue.render) with
    | error e =>
      rw [hd] at h
      cases h
      exact .of_journal rfl quiet rfl
    | ok d' =>
      rw [hd] at h
      cases h
      exact .of_journal rfl rfl rfl

theorem load_eq_ok (h : (Act.on (load path) w).1 = .ok s) : s = ⟨path, s.catalogue, false⟩ := by
  rw [on_load] at h
  dsimp only at h
  cases hc : readCatalogue w.disk path with
  | error e =>
    rw [hc] at h
    cases h
  | ok c =>
    rw [hc] at h
    cases h
    rfl

/-! ## The round trip -/

/-- The text of a catalogue is read as that catalogue, a store that is saved leaves such a text in
its file, and whatever the file of a store that has been loaded looked like, the store is loaded
again once it is saved. -/
theorem file_round_trip (path : Path) :
    (∀ c : Catalogue, Catalogue.ofText c.render = .ok c) ∧
      (∀ s w s' w', Act.on (save s) w = (.ok s', w') →
        ∃ text, w'.disk.readText s.path = .ok text ∧ Catalogue.ofText text = .ok s.catalogue) ∧
      ∀ s w w₁ s' w₂, (Act.on (load path) w).1 = .ok s → Act.on s.save w₁ = (.ok s', w₂) →
        (Act.on (load path) w₂).1 = .ok s := by
  refine ⟨Catalogue.ofText_render, fun s w s' w' hs => ?_, fun s w w₁ s' w₂ hl hs => ?_⟩
  · obtain ⟨-, hr, -, -⟩ := save_ok hs
    exact ⟨_, hr, s.catalogue.ofText_render⟩
  · obtain ⟨-, -, hc, -⟩ := save_ok hs
    rw [load_eq_ok hl] at hc ⊢
    rw [on_load, hc]
    rfl

/-- Fields that are missing or null, a number for a name and fields nobody knows. -/
theorem file_round_trip_sparse :
    let sparse := "settings: \x7bscript_name: \x7bx: [1], version: \x7bpresets: " ++
      "[\x7bname: 07, find: ~\x7d]\x7d\x7d\x7d\n"
    let disk : Disk := ⟨[.folder 0 [(Utf8.encode "p", 1)], .file (Utf8.encode sparse)], 0⟩
    let w : World := ⟨disk, [], [], ⟨2024, 2, 21, 15, 7, 0⟩, .fixed none true [], [], 0⟩
    let s : Store := ⟨.ofString "p", ⟨"", "", [⟨"07", "", ""⟩]⟩, false⟩
    ∃ w', (Act.on (load (.ofString "p")) w).1 = .ok s ∧ Act.on s.save w = (.ok s, w') ∧
      w'.disk ≠ w.disk ∧ (Act.on (load (.ofString "p")) w').1 = .ok s := by
  intro sparse disk w s
  have hl : (Act.on (load (.ofString "p")) w).1 = .ok s := by decide +kernel
  have hs : Act.on s.save w = (.ok s, (Act.on s.save w).2) :=
    Prod.ext (by decide +kernel : (Act.on s.save w).1 = .ok s) rfl
  exact ⟨_, hl, hs, by decide +kernel, (file_round_trip (.ofString "p")).2.2 s w w s _ hl hs⟩

end Store
end Relabel
