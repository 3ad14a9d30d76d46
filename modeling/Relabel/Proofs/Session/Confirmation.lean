import Relabel.Proofs.Item.Renaming
import Relabel.Proofs.Session.Run

/-!
# What confirming does to the files

A session that is confirmed renames its items one after the other, each in the file system that the
ones before it have left. An item looks where its new path leads before it takes it, so that it
replaces nothing but a link that leads to nothing. Such a link is lost.

* `Session.Renaming`: one renaming of an entry, between two file systems.
* `Session.renamings`: those that a confirmation carries out.
* `Session.confirm_keeps_entries`: what is kept and when something is lost.
* `Session.confirm_loses_link`: a link that is lost.
-/

namespace Relabel

namespace Session

/-! ## Renamings -/

/-- A renaming of an entry, with the file systems before and after it. -/
structure Renaming where
  before : Disk
  path : Path
  target : Path
  after : Disk
  deriving DecidableEq

namespace Renaming

/-- The renaming is carried out, after a look where its new path leads. -/
structure Done (r : Renaming) : Prop where
  rename : r.before.rename r.path r.target = .ok r.after
  free : r.before.pathExists r.target = true → r.before.sameNode r.path r.target = true

/-- The new path ends in a link that leads to nothing. -/
def hitsStrayLink (r : Renaming) : Bool := r.before.hitsStrayLink r.path r.target

/-- The renamed entry stands in its new slot. -/
def Moves (r : Renaming) : Prop :=
  ∃ a b i, r.before.slot? r.path = some a ∧ r.before.slot? r.target = some b ∧
    r.before.nodeAt a = some i ∧ r.after.nodeAt b = some i

/-- All entries but the renamed one are there as they were. -/
def KeepsOthers (r : Renaming) : Prop :=
  ∀ a i, r.before.nodeAt a = some i → r.before.slot? r.path ≠ some a →
    r.after.nodeAt a = some i ∧ r.after.face? i = r.before.face? i

/-- The link that the new path ends in is gone. -/
def LosesLink (r : Renaming) : Prop :=
  ∃ a i link, r.before.slot? r.target = some a ∧ r.before.nodeAt a = some i ∧
    r.before.node? i = some (.link link) ∧ r.before.slot? r.path ≠ some a ∧
      r.after.nodeAt a ≠ some i

/-- The entry in the slot is neither renamed nor a link that is hit. -/
def Spares (r : Renaming) (a : Slot) : Prop :=
  r.before.slot? r.path ≠ some a ∧
    (r.hitsStrayLink = true → r.before.slot? r.target ≠ some a)

instance (r : Renaming) (a : Slot) : Decidable (r.Spares a) :=
  inferInstanceAs (Decidable (_ ∧ _))

namespace Done

variable {r : Renaming}

theorem moves (h : r.Done) : r.Moves := Disk.nodeAt_target h.rename

theorem face? (h : r.Done) (i : Nat) : r.after.face? i = r.before.face? i :=
  Disk.face?_rename h.rename i

theorem nodeAt (h : r.Done) {a : Slot} {i : Nat} (ha : r.before.nodeAt a = some i)
    (hs : r.Spares a) : r.after.nodeAt a = some i :=
  Disk.nodeAt_rename h.rename h.free ha hs.1 hs.2

theorem losesLink (h : r.Done) (hh : r.hitsStrayLink = true) : r.LosesLink :=
  Disk.lost_of_hitsStrayLink h.rename h.free hh

theorem keepsOthers_iff (h : r.Done) : r.KeepsOthers ↔ r.hitsStrayLink = false := by
  constructor
  · intro hk
    refine Bool.eq_false_iff.mpr fun hh => ?_
    obtain ⟨a, j, -, -, ha, -, hp, hj⟩ := h.losesLink hh
    exact hj (hk a j ha hp).1
  · intro hh a i ha hp
    refine ⟨h.nodeAt ha ⟨hp, fun hh' => ?_⟩, h.face? i⟩
    rw [hh] at hh'
    cases hh'

end Done
end Renaming

/-- The renaming that has come of giving an item a name, if an entry has been renamed. -/
def renaming? (item : Item) (new : String) (w : World) : Option Renaming :=
  match item, Deed.on (renameItem item new) w with
  | .onDisk path _, ((.onDisk target _, .renamed ..), w') => some ⟨w.disk, path, target, w'.disk⟩
  | _, _ => none

/-- The renamings that have come of giving items names, one after the other. -/
def renamingsOf : List (Item × String) → World → List Renaming
  | [], _ => []
  | (item, new) :: rest, w =>
    (renaming? item new w).toList ++ renamingsOf rest (Deed.on (renameItem item new) w).2

/-- The renamings that come of confirming a session. -/
def renamings (s : Session) (w : World) : List Renaming :=
  renamingsOf (s.selection.members.zip s.proposed) w

/-- An item whose name does not change is skipped before anything is checked. -/
theorem on_renameItem (item : Item) (new : String) (w : World) :
    Deed.on (renameItem item new) w =
      if item.name = new then
        ((item, .skipped item.name),
          (Deed.on (World.info s!"Skipping {item.name}. No change to name.") w).2)
      else match Act.on (item.rename new) w with
        | (.ok item', w') => ((item', .renamed item.name new),
            (Deed.on (World.info s!"Renamed {item.name} to {new}") w').2)
        | (.error e, w') => ((item, .failed item.name new e.message), (Deed.on (World.record .error
            s!"Failed to rename {item.name} to {new}: {e.message}") w').2) := by
  unfold renameItem
  dsimp only
  rw [Deed.on_ite]
  split
  · rfl
  rw [Deed.on_bind, Act.on_run]
  obtain ⟨_ | _, w'⟩ := Act.on (item.rename new) w <;> rfl

/-- Giving an item a name renames one entry, as far as files are concerned, or does nothing. -/
theorem renaming?_cases (item : Item) (new : String) (w : World) :
    (renaming? item new w = none ∧ (Deed.on (renameItem item new) w).2.disk = w.disk) ∨
      ∃ r, renaming? item new w = some r ∧ r.before = w.disk ∧
        r.after = (Deed.on (renameItem item new) w).2.disk ∧ r.Done := by
  have h := on_renameItem item new w
  cases item with
  | listed name kind context locked =>
    refine .inl ⟨rfl, ?_⟩
    rw [h]
    split
    · rfl
    · cases locked <;> rfl
  | onDisk path kind =>
    unfold renaming?
    split at h
    · rw [h]
      exact .inl ⟨rfl, rfl⟩
    cases hr : Act.on ((Item.onDisk path kind).rename new) w with
    | mk r w' =>
    rw [hr] at h
    rw [h]
    cases r with
    | error e =>
      cases Item.eq_of_rename_error hr
      exact .inl ⟨rfl, rfl⟩
    | ok item' =>
      have hd := Item.renamed_of_ok hr
      cases hd.item
      exact .inr ⟨_, rfl, rfl, rfl, hd.disk, hd.looked⟩

/-! ## Confirming -/

variable {s : Session}

section

variable {pairs : List (Item × String)} {w : World}

theorem on_renameAll_cons (item : Item) (new : String) (rest : List (Item × String)) (w : World) :
    (Deed.on (renameAll ((item, new) :: rest)) w).2 =
      (Deed.on (renameAll rest) (Deed.on (renameItem item new) w).2).2 :=
  rfl

theorem done_of_mem_renamingsOf {r : Renaming} (h : r ∈ renamingsOf pairs w) : r.Done := by
  induction pairs generalizing w with
  | nil => cases h
  | cons pair rest ih =>
    obtain ⟨item, new⟩ := pair
    rw [renamingsOf] at h
    rcases List.mem_append.mp h with h | h
    · rcases renaming?_cases item new w with ⟨hn, -⟩ | ⟨r', hr, -, -, hd⟩
      · rw [hn] at h
        cases h
      · rw [hr] at h
        cases List.mem_singleton.mp h
        exact hd
    · exact ih h

theorem face?_renameAll (pairs : List (Item × String)) (w : World) (i : Nat) :
    (Deed.on (renameAll pairs) w).2.disk.face? i = w.disk.face? i := by
  induction pairs generalizing w with
  | nil => rfl
  | cons pair rest ih =>
    obtain ⟨item, new⟩ := pair
    rw [on_renameAll_cons, ih]
    rcases renaming?_cases item new w with ⟨-, hd⟩ | ⟨r, -, hb, ha, hd⟩
    · rw [hd]
    · rw [← ha, ← hb, hd.face?]

/-- A way that every renaming spares is there after all of them. -/
theorem lookup_renameAll {k i : Nat} {way : List FileName} (h : w.disk.lookup k way = some i)
    (hs : ∀ r ∈ renamingsOf pairs w, ∀ a ∈ w.disk.slotsOn k way, r.Spares a) :
    (Deed.on (renameAll pairs) w).2.disk.lookup k way = some i := by
  induction pairs generalizing w with
  | nil => exact h
  | cons pair rest ih =>
    obtain ⟨item, new⟩ := pair
    rw [on_renameAll_cons]
    rw [renamingsOf] at hs
    have hs' := fun r hr => hs r (List.mem_append_right _ hr)
    rcases renaming?_cases item new w with ⟨-, hd⟩ | ⟨r, hr, hb, ha, hd⟩
    · exact ih (hd ▸ h) (hd ▸ hs')
    · obtain ⟨hl, hslots⟩ := Disk.lookup_congr h fun a ha' j hj =>
        hd.nodeAt (hb ▸ hj) (hs r (by simp [hr]) a ha')
      exact ih (ha ▸ hl) (by rw [← ha, hslots]; exact hs')

end

/-- Beyond its renamings a confirmation does not touch the disk. -/
theorem disk_confirm (host : Host) (w : World) (h : s.state.isFinal = false) :
    ((confirm host).on s w).2.2.disk = (Deed.on s.renameMembers w).2.disk := by
  rw [on_confirm host w h]
  cases host <;> rfl

/-- Each renaming of a confirmation moves its entry, and it keeps all others unless its new path
ends in a link that leads to nothing; that link is then lost. What stood at the end of a way that
meets no renamed entry and no link so hit stands there afterwards, with its content or target. -/
theorem confirm_keeps_entries (host : Host) (w : World) (h : s.state.isFinal = false) :
    (∀ r ∈ s.renamings w, r.Moves ∧ (r.KeepsOthers ↔ r.hitsStrayLink = false) ∧
      (r.hitsStrayLink = true → r.LosesLink)) ∧
      ∀ way i, w.disk.lookup Disk.root way = some i →
        (∀ r ∈ s.renamings w, ∀ a ∈ w.disk.slotsOn Disk.root way, r.Spares a) →
          ((confirm host).on s w).2.2.disk.lookup Disk.root way = some i ∧
            ((confirm host).on s w).2.2.disk.face? i = w.disk.face? i := by
  refine ⟨fun r hr => ?_, fun way i hl hs => ?_⟩
  · have hd := done_of_mem_renamingsOf hr
    exact ⟨hd.moves, hd.keepsOthers_iff, hd.losesLink⟩
  · rw [disk_confirm host w h]
    exact ⟨lookup_renameAll hl hs, face?_renameAll ..⟩

/-! ## A link that is lost -/

/-- A directory with a file of two names, a link that leads to nothing, and a link to the file. -/
def strayDisk : Disk where
  nodes := [.folder 0 [(Utf8.encode "a1", 1), (Utf8.encode "b1", 2), (Utf8.encode "a2", 1),
    (Utf8.encode "b2", 3)], .file [0x78], .link (.ofString "gone"), .link (.ofString "a2")]
  current := 0

def strayWorld : World :=
  ⟨strayDisk, [], [], ⟨2024, 2, 21, 15, 7, 0⟩, .fixed none true [], [], 0⟩

/-- Both names of the file, of which none is to change yet. -/
def strayBlank : Session :=
  blank (.ofItems [.onDisk (.ofString "a1") .clip, .onDisk (.ofString "a2") .clip])
    ⟨strayWorld.now, "", ""⟩ .none ⟨.ofString "p", .blank, false⟩ .legacy

/-- Both names of the file are to begin with another letter. -/
def straySession [Find.Engine] : Session :=
  (play [⟨id, .setFind "a"⟩, ⟨id, .setReplace "b"⟩] (strayBlank, strayWorld)).1

attribute [local instance] Find.Engine.boundless in
theorem confirm_keeps_second_name :
    let after := ((confirm .silent).on straySession strayWorld).2.2.disk
    straySession.state.isFinal = false ∧
      (∀ r ∈ straySession.renamings strayWorld, r.Moves ∧
        (r.KeepsOthers ↔ r.hitsStrayLink = false) ∧ (r.hitsStrayLink = true → r.LosesLink)) ∧
      strayDisk.lookup Disk.root [Utf8.encode "a2"] = some 1 ∧
      (∀ r ∈ straySession.renamings strayWorld,
        ∀ a ∈ strayDisk.slotsOn Disk.root [Utf8.encode "a2"], r.Spares a) ∧
      after.lookup Disk.root [Utf8.encode "a2"] = some 1 ∧ after.face? 1 = strayDisk.face? 1 := by
  have h : straySession.state.isFinal = false := by decide +kernel
  have hl : strayDisk.lookup Disk.root [Utf8.encode "a2"] = some 1 := by decide +kernel
  have hs : ∀ r ∈ straySession.renamings strayWorld,
      ∀ a ∈ strayDisk.slotsOn Disk.root [Utf8.encode "a2"], r.Spares a := by decide +kernel
  obtain ⟨hr, hw⟩ := confirm_keeps_entries .silent strayWorld h
  exact ⟨h, hr, hl, hs, hw _ _ hl hs⟩

attribute [local instance] Find.Engine.boundless in
/-- Where a link that leads to nothing stands in the way, it is replaced without a word. -/
theorem confirm_loses_link :
    let result := (confirm .silent).on straySession strayWorld
    straySession.state.isFinal = false ∧
      strayDisk.lookup Disk.root [Utf8.encode "b1"] = some 2 ∧
      strayDisk.face? 2 = some (.link (.ofString "gone")) ∧
      (∀ r ∈ straySession.renamings strayWorld,
        ∀ a ∈ strayDisk.slotsOn Disk.root [Utf8.encode "b1"], r.before.slot? r.path ≠ some a) ∧
      result.1.toOption = some [.renamed "a1" "b1",
        .failed "a2" "b2" "Could not rename 'a2': b2 already exists"] ∧
      result.2.2.disk.lookup Disk.root [Utf8.encode "b1"] = some 1 := by
  refine ⟨?_, ?_, ?_, ?_, ?_, ?_⟩ <;> decide +kernel

end Session
end Relabel
