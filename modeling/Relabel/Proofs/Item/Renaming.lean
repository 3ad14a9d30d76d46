import Relabel.Item.Basic
import Relabel.Proofs.Disk.Moving
import Relabel.Proofs.World.Execution

/-!
# Renaming entries of directories

An item of an entry takes a name if the name is free and the file system lets it have it. Its path
then is that of another entry of the same directory. That the entry has moved there is another
matter: nothing moves if the new name is one that the same node has already.

* `Item.Renamed`: all that a renaming does.
* `Item.name_of_rename`: an item that has taken a name has it.
* `Item.moved_iff_of_rename`: when the entry has moved.
* `Item.rename_leaves_shared_file`: an entry that has not moved.
* `Item.attempts`: an item that is given names one after the other.
* `Item.attempts_stay`: it stays in its directory.
-/

namespace Relabel.Item

variable {path : Path} {kind : Kind} {item item' : Item} {new : String} {old : FileName}
  {w w' : World}

/-! ## One renaming -/

theorem checkName_eq_ok {d : Disk} {p q : Path} {current : String}
    (h : checkName d p q current new = .ok ()) :
    d.pathExists q = true → d.sameNode p q = true := by
  unfold checkName at h
  split at h
  · cases h
  split at h
  · cases h
  split at h
  · cases h
  next hq => simpa using hq

theorem acceptable_of_checkName {d : Disk} {p q : Path} {current : String}
    (h : checkName d p q current new = .ok ()) : new ≠ "" ∧ '/' ∉ new.toList := by
  unfold checkName at h
  split at h
  · cases h
  next hempty =>
  split at h
  · cases h
  next hslash =>
  refine ⟨by simpa using hempty, fun hm => hslash ?_⟩
  exact List.any_eq_true.mpr ⟨'/', hm, by decide⟩

theorem on_move (path : Path) (kind : Kind) (name : String) (w : World) :
    let target := path.withFileName (Utf8.encode name)
    let current := (onDisk path kind).name
    Act.on (move path kind name) w =
      match checkName w.disk path target current name with
      | .error e => (.error e, w)
      | .ok () =>
        match w.disk.rename path target with
        | .error e => (.error (.mutation current e.message), w)
        | .ok d => (.ok (onDisk target kind), (Deed.on (do
            World.setDisk (.rename path target) d
            World.debug s!"Moved {path} -> {target}") w).2) := by
  dsimp only
  unfold move
  rw [Act.on_bind, Act.on_lift, World.on_getDisk]
  dsimp only
  cases checkName w.disk path (path.withFileName (Utf8.encode name)) (onDisk path kind).name name with
  | error e => rfl
  | ok =>
    dsimp only
    rw [Act.on_bind, Act.on_lift, World.on_getDisk]
    dsimp only
    cases w.disk.rename path (path.withFileName (Utf8.encode name)) <;> rfl

/-- What it takes that the entry at a path takes a name, and what comes of it. -/
structure Renamed (path : Path) (kind : Kind) (new : String) (w : World) (item' : Item)
    (w' : World) : Prop where
  item : item' = .onDisk (path.withFileName (Utf8.encode new)) kind
  ne_empty : new ≠ ""
  slash : '/' ∉ new.toList
  looked : w.disk.pathExists (path.withFileName (Utf8.encode new)) = true →
    w.disk.sameNode path (path.withFileName (Utf8.encode new)) = true
  disk : w.disk.rename path (path.withFileName (Utf8.encode new)) = .ok w'.disk

/-- An item that says that it has been renamed has been. -/
theorem renamed_of_ok (h : Act.on ((onDisk path kind).rename new) w = (.ok item', w')) :
    Renamed path kind new w item' w' := by
  rw [rename, on_move] at h
  split at h
  · cases h
  next hcheck =>
  split at h
  · cases h
  next d hd =>
  cases h
  obtain ⟨hne, hslash⟩ := acceptable_of_checkName hcheck
  exact ⟨rfl, hne, hslash, checkName_eq_ok hcheck, hd⟩

/-- What lets an entry take a name. -/
theorem rename_of_checkName
    (hcheck : checkName w.disk path (path.withFileName (Utf8.encode new)) (onDisk path kind).name new =
      .ok ())
    (h : (w.disk.rename path (path.withFileName (Utf8.encode new))).toBool = true) :
    (Act.on ((onDisk path kind).rename new) w).1 =
      .ok (.onDisk (path.withFileName (Utf8.encode new)) kind) := by
  rw [rename, on_move, hcheck]
  cases hd : w.disk.rename path (path.withFileName (Utf8.encode new)) with
  | error e =>
    rw [hd] at h
    cases h
  | ok d => rfl

/-- A refused name changes nothing. -/
theorem eq_of_rename_error {e : Error} (h : Act.on (item.rename new) w = (.error e, w')) :
    w' = w := by
  cases item with
  | listed name kind context locked =>
    cases locked with
    | true =>
      cases h
      rfl
    | false => cases h
  | onDisk path kind =>
    rw [rename, on_move] at h
    split at h
    · cases h
      rfl
    split at h
    · cases h
      rfl
    · cases h

namespace Renamed

variable (h : Renamed path kind new w item' w')

include h

theorem slash_notMem : Path.slash ∉ Utf8.encode new := Utf8.slash_notMem_encode h.slash

theorem ne_nil : Utf8.encode new ≠ [] := Utf8.encode_ne_nil h.ne_empty

theorem fileName? : (path.withFileName (Utf8.encode new)).fileName? = some (Utf8.encode new) :=
  Disk.fileName?_of_rename h.disk h.slash_notMem h.ne_nil

theorem name_eq : item'.name = new := by
  rw [h.item, name, h.fileName?]
  exact Utf8.lossy_encode new

/-- The old entry and the new one are in one directory. -/
theorem slots (hp : path.fileName? = some old) : ∃ dir i,
    w.disk.slot? path = some ⟨dir, old⟩ ∧
      w.disk.slot? (path.withFileName (Utf8.encode new)) = some ⟨dir, Utf8.encode new⟩ ∧
      w.disk.nodeAt ⟨dir, old⟩ = some i ∧ w'.disk.nodeAt ⟨dir, Utf8.encode new⟩ = some i := by
  obtain ⟨dir, ha, hb⟩ := Disk.slots_of_rename hp h.slash_notMem h.ne_nil h.disk
  obtain ⟨a, b, i, ha', hb', hi, hi'⟩ := Disk.nodeAt_target h.disk
  cases ha.symm.trans ha'
  cases hb.symm.trans hb'
  exact ⟨dir, i, ha, hb, hi, hi'⟩

end Renamed

/-- An item that has taken a name has it, and is of the same kind as before. -/
theorem name_of_rename (h : (Act.on (item.rename new) w).1 = .ok item') :
    item'.name = new ∧ item'.kind = item.kind := by
  cases item with
  | listed name kind context locked =>
    cases locked with
    | true => cases h
    | false =>
      cases h
      exact ⟨rfl, rfl⟩
  | onDisk path kind =>
    have hr : Renamed path kind new w item' _ := renamed_of_ok (Prod.ext h rfl)
    exact ⟨hr.name_eq, by rw [hr.item]; rfl⟩

/-! ## Entries that move -/

/-- An item that has taken a name has the path of that name in the directory of its entry, and its
entry has moved there with all below it if and only if the name was free. It was, unless the new
path led to the same node or to nothing by a link. In the first case nothing has happened. -/
theorem moved_iff_of_rename (ht : w.disk.IsTree) (hp : path.fileName? = some old)
    (h : Act.on ((onDisk path kind).rename new) w = (.ok item', w')) :
    let target := path.withFileName (Utf8.encode new)
    item' = .onDisk target kind ∧ item'.name = new ∧
      (w.disk.sameNode path target = true → w'.disk = w.disk) ∧
      ∃ dir i, w.disk.slot? path = some ⟨dir, old⟩ ∧
        w.disk.slot? target = some ⟨dir, Utf8.encode new⟩ ∧
        w.disk.nodeAt ⟨dir, old⟩ = some i ∧
        (w.disk.Moved w'.disk ⟨dir, old⟩ ⟨dir, Utf8.encode new⟩ i ↔
          w.disk.sameNode path target = false ∧ w.disk.hitsStrayLink path target = false) ∧
        (w.disk.Moved w'.disk ⟨dir, old⟩ ⟨dir, Utf8.encode new⟩ i →
          (w'.disk.find false path).toBool = false ∧
            (w'.disk.slot? path = some ⟨dir, old⟩ → w'.disk.find false target = .ok i)) := by
  have hr := renamed_of_ok h
  obtain ⟨dir, i, ha, hb, hi, -⟩ := hr.slots hp
  refine ⟨hr.item, hr.name_eq, Disk.eq_of_sameNode hr.disk, dir, i, ha, hb, hi, ?_, fun hm => ?_⟩
  · rw [Disk.moved_iff ht hr.disk ha hb hi rfl]
    exact Disk.free_iff hr.disk hr.looked ha hb hi
  refine ⟨Disk.find_moved hm ha hi, fun hslot => ?_⟩
  -- The name is known to be one, and the path to be a path, from before.
  obtain ⟨-, hplace⟩ := Disk.place_of_slot? hb
  have hname := Disk.nameable_of_slot? hb (path.getLast?_steps_withFileName hr.slash_notMem hr.ne_nil)
  obtain ⟨-, hslot'⟩ := Disk.slot?_withFileName hp hslot hr.slash_notMem hr.ne_nil hname
    (Disk.place_eq_ok.mp hplace).1
  exact Disk.find_of_not_endsInSlash hslot' hm.there
    (path.endsInSlash_withFileName hr.slash_notMem hr.ne_nil)

/-- A world with nothing but a disk. -/
def bareWorld (disk : Disk) : World :=
  ⟨disk, [], [], ⟨2024, 2, 21, 15, 7, 0⟩, .fixed none true [], [], 0⟩

/-- A directory in which there are a file of two names, one of them below another directory, and a
link. -/
def nestedDisk : Disk where
  nodes := [.folder 0 [(Utf8.encode "d", 1), (Utf8.encode "f", 2)],
    .folder 0 [(Utf8.encode "x", 2), (Utf8.encode "l", 3)], .file [0x78], .link (.ofString "x")]
  current := 0

theorem moved_directory :
    let w := bareWorld nestedDisk
    let path := Path.ofString "d"
    let done := Act.on ((onDisk path .folder).rename "e") w
    nestedDisk.IsTree ∧ path.fileName? = some (Utf8.encode "d") ∧
      done.1 = .ok (.onDisk (.ofString "e") .folder) ∧
      ∃ dir i, nestedDisk.slot? path = some ⟨dir, Utf8.encode "d"⟩ ∧
        nestedDisk.Moved done.2.disk ⟨dir, Utf8.encode "d"⟩ ⟨dir, Utf8.encode "e"⟩ i ∧
        (done.2.disk.find false path).toBool = false := by
  have ht : nestedDisk.IsTree := by decide +kernel
  have hp : (Path.ofString "d").fileName? = some (Utf8.encode "d") := by decide +kernel
  have htarget : (Path.ofString "d").withFileName (Utf8.encode "e") = .ofString "e" := by
    decide +kernel
  have h : (Act.on ((onDisk (.ofString "d") .folder).rename "e") (bareWorld nestedDisk)).1 =
      .ok (.onDisk ((Path.ofString "d").withFileName (Utf8.encode "e")) .folder) :=
    rename_of_checkName (by decide +kernel) (by decide +kernel)
  rw [htarget] at h
  obtain ⟨-, -, -, dir, i, ha, -, -, hm, hleads⟩ :=
    moved_iff_of_rename (w := bareWorld nestedDisk) ht hp (Prod.ext h rfl)
  have hm := hm.mpr (by decide +kernel)
  exact ⟨ht, hp, h, dir, i, ha, hm, (hleads hm).1⟩

/-- A directory with a file of two names. -/
def sharedDisk : Disk where
  nodes := [.folder 0 [(Utf8.encode "a.txt", 1), (Utf8.encode "b.txt", 1)], .file [0x78]]
  current := 0

/-- An item takes the other name of its file, and nothing has moved. -/
theorem rename_leaves_shared_file :
    let done := Act.on ((onDisk (.ofString "a.txt") .clip).rename "b.txt") (bareWorld sharedDisk)
    done.1 = .ok (.onDisk (.ofString "b.txt") .clip) ∧ done.2.disk = sharedDisk ∧
      done.2.disk.find false (.ofString "a.txt") = .ok 1 := by
  have htarget : (Path.ofString "a.txt").withFileName (Utf8.encode "b.txt") = .ofString "b.txt" := by
    decide +kernel
  have h : (Act.on ((onDisk (.ofString "a.txt") .clip).rename "b.txt") (bareWorld sharedDisk)).1 =
      .ok (.onDisk ((Path.ofString "a.txt").withFileName (Utf8.encode "b.txt")) .clip) :=
    rename_of_checkName (by decide +kernel) (by decide +kernel)
  rw [htarget] at h
  exact ⟨h, by decide +kernel, by decide +kernel⟩

/-! ## Name after name -/

/-- What is held of an item and the world after the item has been given a name; an item that refuses
the name stays what it is. -/
def attempt (held : Item × World) (new : String) : Item × World :=
  match Act.on (held.1.rename new) held.2 with
  | (.ok item, w) => (item, w)
  | (.error _, w) => (held.1, w)

/-- The same for names one after the other. -/
def attempts (held : Item × World) (names : List String) : Item × World := names.foldl attempt held

/-- Names that are refused at sight change nothing. -/
theorem attempts_of_checkName {names : List String}
    (h : ∀ new ∈ names, (checkName w.disk path (path.withFileName (Utf8.encode new))
      (onDisk path kind).name new).toBool = false) :
    attempts (.onDisk path kind, w) names = (.onDisk path kind, w) := by
  induction names with
  | nil => rfl
  | cons new names ih =>
    obtain ⟨hnew, hnames⟩ := List.forall_mem_cons.mp h
    have hheld : attempt (.onDisk path kind, w) new = (.onDisk path kind, w) := by
      rw [attempt, rename, on_move]
      cases hc : checkName w.disk path (path.withFileName (Utf8.encode new))
          (onDisk path kind).name new with
      | error e => rfl
      | ok =>
        rw [hc] at hnew
        cases hnew
    rw [attempts, List.foldl_cons, hheld]
    exact ih hnames

/-- The item is that of an entry of a directory, and the directories hold what they held at first. -/
structure Stays (folder : Path) (kind : Kind) (d : Disk) (held : Item × World) : Prop where
  item : ∃ p old, held.1 = .onDisk p kind ∧ p.fileName? = some old ∧ p.parent? = some folder
  disk : d.Rearranged held.2.disk

theorem Stays.attempt {folder : Path} {d : Disk} {held : Item × World}
    (h : Stays folder kind d held) (new : String) : Stays folder kind d (attempt held new) := by
  obtain ⟨held, w⟩ := held
  obtain ⟨⟨p, old, rfl, hp, hfolder⟩, hd⟩ := h
  unfold Item.attempt
  generalize hon : Act.on ((onDisk p kind).rename new) w = r
  obtain ⟨e | item', w'⟩ := r
  · cases eq_of_rename_error hon
    exact ⟨⟨p, old, rfl, hp, hfolder⟩, hd⟩
  · have hr := renamed_of_ok hon
    obtain ⟨dir, i, ha, hb, hi, -⟩ := hr.slots hp
    have hname := Disk.nameable_of_slot? hb (p.getLast?_steps_withFileName hr.slash_notMem hr.ne_nil)
    have hparent := Path.parent?_withFileName hp hr.slash_notMem hr.ne_nil hname.ne_dot
    exact ⟨⟨_, _, hr.item, hr.fileName?, hparent.trans hfolder⟩,
      hd.trans (Disk.rearranged_of_rename hr.disk hr.looked ha hb hi rfl)⟩

theorem Stays.attempts {folder : Path} {d : Disk} {held : Item × World}
    (h : Stays folder kind d held) (names : List String) :
    Stays folder kind d (attempts held names) := by
  induction names generalizing held with
  | nil => exact h
  | cons new names ih => exact ih (h.attempt new)

theorem on_ofPath {name : String} (hold : path.fileName? = some old)
    (hname : Utf8.text? old = some name) (w : World) : Act.on (ofPath path) w =
      (.ok (.onDisk path (if w.disk.isFolderAt path then .folder else .clip)),
        { w with journal := w.journal ++ [.record .debug s!"Selected {name}"] }) := by
  unfold ofPath
  rw [hold]
  dsimp only
  rw [hname]
  rfl

theorem ofPath_eq_ok (h : Act.on (ofPath path) w = (.ok item, w')) :
    ∃ old kind, path.fileName? = some old ∧ item = .onDisk path kind ∧ w'.disk = w.disk := by
  unfold ofPath at h
  split at h
  · cases h
  next old hold =>
  split at h
  · cases h
  cases h
  exact ⟨old, _, hold, rfl, rfl⟩

theorem exists_parent? (h : path.fileName? = some old) : ∃ folder, path.parent? = some folder := by
  obtain ⟨front, hparts⟩ := Path.parts_of_fileName? h
  exact ⟨_, hparts.parent⟩

/-- However often the item of an entry has been given names, it is that of an entry of the directory
it was in. A name that it takes is the last one of its new path, and its entry has that name in the
directory in which the old one was; a name that it refuses changes nothing. Hence all directories
hold what they held at first, if under other names, but for links that have been lost. -/
theorem attempts_stay {w₀ w₁ : World} (h : Act.on (ofPath path) w₀ = (.ok item, w₁))
    (names : List String) (new : String) : ∃ folder p, path.parent? = some folder ∧
      let held := attempts (item, w₁) names
      held.1 = .onDisk p item.kind ∧ p.parent? = some folder ∧
        w₀.disk.Rearranged held.2.disk ∧
        (∀ item' w', Act.on (held.1.rename new) held.2 = (.ok item', w') →
          item' = .onDisk (folder.join ⟨Utf8.encode new⟩) item.kind ∧ item'.name = new ∧
            ∃ dir old i, held.2.disk.slot? p = some ⟨dir, old⟩ ∧
              held.2.disk.slot? (folder.join ⟨Utf8.encode new⟩) = some ⟨dir, Utf8.encode new⟩ ∧
              held.2.disk.nodeAt ⟨dir, old⟩ = some i ∧
              w'.disk.nodeAt ⟨dir, Utf8.encode new⟩ = some i) ∧
        ∀ e w', Act.on (held.1.rename new) held.2 = (.error e, w') →
          attempt held new = held ∧ w' = held.2 := by
  obtain ⟨old, kind, hold, rfl, hdisk⟩ := ofPath_eq_ok h
  obtain ⟨folder, hfolder⟩ := exists_parent? hold
  have hstart : Stays folder kind w₀.disk (.onDisk path kind, w₁) :=
    ⟨⟨path, old, rfl, hold, hfolder⟩, hdisk ▸ .refl _⟩
  obtain ⟨⟨p, n, hitem, hp, hparent⟩, hrearranged⟩ := hstart.attempts names
  refine ⟨folder, p, hfolder, hitem, hparent, hrearranged, fun item' w' hok => ?_,
    fun e w' herror => ?_⟩
  · rw [hitem] at hok
    have hr := renamed_of_ok hok
    have htarget : p.withFileName (Utf8.encode new) = folder.join ⟨Utf8.encode new⟩ := by
      rw [Path.withFileName, hp, hparent]
      rfl
    obtain ⟨dir, i, ha, hb, hi, hi'⟩ := hr.slots hp
    exact ⟨htarget ▸ hr.item, hr.name_eq, dir, n, i, ha, htarget ▸ hb, hi, hi'⟩
  · have hw := eq_of_rename_error herror
    refine ⟨?_, hw⟩
    rw [attempt, herror, hw]

/-- The world when the item of the lower file has been made. -/
def nestedWorld : World :=
  { bareWorld nestedDisk with journal := [.record .debug "Selected x"] }

theorem attempts_stay_among_dots :
    let path := Path.ofString "d/x"
    let names := ["", "..", "../y", "l"]
    let held := attempts (.onDisk path .clip, nestedWorld) names
    Act.on (ofPath path) (bareWorld nestedDisk) = (.ok (.onDisk path .clip), nestedWorld) ∧
      path.parent? = some (.ofString "d") ∧ nestedDisk.Rearranged held.2.disk ∧
      (Act.on (held.1.rename "y") held.2).1 = .ok (.onDisk (.ofString "d/y") .clip) ∧
      Path.ofString "d/y" = (Path.ofString "d").join ⟨Utf8.encode "y"⟩ := by
  intro path names held
  have hold : path.fileName? = some (Utf8.encode "x") := by decide +kernel
  have hfile : (bareWorld nestedDisk).disk.isFolderAt path = false := by decide +kernel
  have h := on_ofPath hold (Utf8.text?_encode "x") (bareWorld nestedDisk)
  rw [hfile, if_neg Bool.false_ne_true] at h
  have hparent : path.parent? = some (.ofString "d") := by decide +kernel
  have hheld : held = (.onDisk path .clip, nestedWorld) :=
    attempts_of_checkName (by decide +kernel)
  have htarget : path.withFileName (Utf8.encode "y") = .ofString "d/y" := by decide +kernel
  have hy : (Act.on ((onDisk path .clip).rename "y") nestedWorld).1 =
      .ok (.onDisk (path.withFileName (Utf8.encode "y")) .clip) :=
    rename_of_checkName (by decide +kernel) (by decide +kernel)
  rw [htarget] at hy
  obtain ⟨folder, p, hfolder, -, -, hdisk, hok, -⟩ := attempts_stay h names "y"
  cases hparent.symm.trans hfolder
  have hy' : (Act.on (held.1.rename "y") held.2).1 = .ok (.onDisk (.ofString "d/y") .clip) := by
    rw [hheld]
    exact hy
  obtain ⟨hitem, -⟩ := hok _ _ (Prod.ext hy' rfl)
  exact ⟨h, hparent, hdisk, hy', by injection hitem⟩

end Relabel.Item
