import Mathlib.Data.List.Forall2
import Relabel.Proofs.Disk.Directory

/-!
# The order of entries

A directory lists its entries in some order. Paths lead to the same nodes whichever order it is,
since no two entries have one name.

* `Disk.Lawful`: every directory gives different names, and such as entries can have.
* `Disk.Reordered`: the same directories with their entries in another order.
* `Disk.Reordered.reaches_iff`, `Disk.Reordered.isFolderAt_eq`: the order does not matter.
-/

namespace Relabel

/-! ## Entries -/

namespace Entries

variable {es es' : Entries} {n : FileName} {i : Nat}

/-- Where names are different an entry is the one that is looked up. -/
theorem mem_iff_get? (h : (es.map Prod.fst).Nodup) : (n, i) ∈ es ↔ es.get? n = some i := by
  refine ⟨fun hmem => ?_, mem_of_get?⟩
  induction es with
  | nil => cases hmem
  | cons e es ih =>
    obtain ⟨m, j⟩ := e
    obtain ⟨hm, hnodup⟩ := List.nodup_cons.mp h
    rw [get?]
    rcases List.mem_cons.mp hmem with heq | hmem
    · cases heq
      exact if_pos rfl
    · rw [if_neg, ih hnodup hmem]
      rintro rfl
      exact hm (List.mem_map.mpr ⟨_, hmem, rfl⟩)

theorem get?_eq_of_perm (hp : es.Perm es') (h : (es.map Prod.fst).Nodup) (n : FileName) :
    es'.get? n = es.get? n := by
  have h' := (hp.map Prod.fst).nodup_iff.mp h
  refine Option.ext fun i => ?_
  rw [← mem_iff_get? h', ← hp.mem_iff, mem_iff_get? h]

theorem Lawful.perm (h : es.Lawful) (hp : es.Perm es') : es'.Lawful where
  nodup := (hp.map Prod.fst).nodup_iff.mp h.nodup
  names n hn := h.names n ((hp.map Prod.fst).mem_iff.mpr hn)

end Entries

/-! ## File systems -/

/-- The same node, but that a directory may list its entries in another order. -/
inductive Node.Reordered : Node → Node → Prop
  | file (content : List UInt8) : Reordered (.file content) (.file content)
  | folder (up : Nat) {es es' : Entries} : es.Perm es' → Reordered (.folder up es) (.folder up es')
  | link (target : Path) : Reordered (.link target) (.link target)

namespace Disk

/-- Every directory gives different names, and such as entries can have. -/
structure Lawful (d : Disk) : Prop where
  entries : ∀ i, (d.entries i).Lawful

instance (d : Disk) : Decidable d.Lawful :=
  decidable_of_iff (∀ i < d.nodes.length, (d.entries i).Lawful) ⟨fun h => ⟨fun i => by
    by_cases hi : i < d.nodes.length
    · exact h i hi
    · have hnil : d.entries i = [] := by
        rw [Disk.entries, node?, List.getElem?_eq_none (Nat.le_of_not_lt hi)]
      rw [hnil]
      exact ⟨List.nodup_nil, nofun⟩⟩, fun h i _ => h.entries i⟩

/-- The same directories with their entries in another order. -/
structure Reordered (d d' : Disk) : Prop where
  current : d'.current = d.current
  nodes : List.Forall₂ Node.Reordered d.nodes d'.nodes

namespace Reordered

variable {d d' : Disk} {i j dir m : Nat} {ns : List FileName} (h : d.Reordered d')

include h

theorem symm : d'.Reordered d where
  current := h.current.symm
  nodes := h.nodes.flip.imp fun n n' hn => by
    cases hn with
    | file content => exact .file content
    | folder up hp => exact .folder up hp.symm
    | link target => exact .link target

/-- Each node is there in both, but for the order of its entries. -/
theorem node? (i : Nat) : Option.Rel Node.Reordered (d.node? i) (d'.node? i) := by
  have hlength := h.nodes.length_eq
  unfold Disk.node?
  by_cases hi : i < d.nodes.length
  · rw [List.getElem?_eq_getElem hi, List.getElem?_eq_getElem (hlength ▸ hi)]
    exact .some (h.nodes.get hi (hlength ▸ hi))
  · rw [List.getElem?_eq_none (Nat.le_of_not_lt hi),
      List.getElem?_eq_none (hlength ▸ Nat.le_of_not_lt hi)]
    exact .none

theorem entries (i : Nat) : (d.entries i).Perm (d'.entries i) := by
  unfold Disk.entries
  have hn := h.node? i
  generalize d.node? i = o, d'.node? i = o' at hn
  cases hn with
  | none => exact .nil
  | some hn =>
    cases hn with
    | folder up hp => exact hp
    | file | link => exact .nil

theorem isFolder_eq (i : Nat) : d'.isFolder i = d.isFolder i := by
  unfold isFolder
  have hn := h.node? i
  generalize d.node? i = o, d'.node? i = o' at hn
  cases hn with
  | none => rfl
  | some hn => cases hn <;> rfl

/-- Directories are where they were. -/
theorem up?_eq (i : Nat) : d'.up? i = d.up? i := by
  unfold up?
  have hn := h.node? i
  generalize d.node? i = o, d'.node? i = o' at hn
  cases hn with
  | none => rfl
  | some hn => cases hn <;> rfl

theorem link {target : Path} (ht : d.node? i = some (.link target)) :
    d'.node? i = some (.link target) := by
  have hn := h.node? i
  rw [ht] at hn
  generalize d'.node? i = o' at hn
  cases hn with
  | some hn =>
    cases hn
    rfl

/-- In another order names are as different as before. -/
theorem lawful (hd : d.Lawful) : d'.Lawful where
  entries i := (hd.entries i).perm (h.entries i)

theorem nodeAt_eq (hd : d.Lawful) (a : Slot) : d'.nodeAt a = d.nodeAt a :=
  Entries.get?_eq_of_perm (h.entries a.dir) (hd.entries a.dir).nodup a.name

/-- Steps lead to the same directories, whatever order these list their entries in. -/
theorem reaches (hd : d.Lawful) (hr : d.Reaches dir ns m i) : d'.Reaches dir ns m i := by
  induction hr with
  | here hi => exact .here (h.isFolder_eq _ ▸ hi)
  | dot hdir _ ih => exact .dot (h.isFolder_eq _ ▸ hdir) ih
  | dotDot hup _ ih => exact .dotDot (h.up?_eq _ ▸ hup) ih
  | through hn hj hf _ ih =>
    exact .through hn (h.nodeAt_eq hd _ ▸ hj) (h.isFolder_eq _ ▸ hf) ih
  | link hn hj ht _ ih => exact .link hn (h.nodeAt_eq hd _ ▸ hj) (h.link ht) ih

theorem reaches_iff (hd : d.Lawful) : d'.Reaches dir ns m i ↔ d.Reaches dir ns m i :=
  ⟨h.symm.reaches (h.lawful hd), h.reaches hd⟩

theorem start_eq (p : Path) : d'.start p = d.start p := by
  rw [start, h.current, start]

theorem find_isFolder (hd : d.Lawful) {p : Path} :
    d'.find true p = .ok i ∧ d'.isFolder i = true ↔
      d.find true p = .ok i ∧ d.isFolder i = true := by
  simp only [find_isFolder_iff, h.start_eq, h.reaches_iff hd]

/-- A path ends in a directory, or does not, whatever the order of entries. -/
theorem isFolderAt_eq (hd : d.Lawful) (p : Path) : d'.isFolderAt p = d.isFolderAt p := by
  rw [Bool.eq_iff_iff]
  simp only [isFolderAt_iff, h.start_eq, h.reaches_iff hd]

end Reordered

end Disk
end Relabel
