import Relabel.Proofs.Disk.Renaming

/-!
# Making directories

New directories hold nothing, so that all files and links stay where they are, with their content
and their targets, and there are no others.

* `Disk.leafFrom`: the file or link that a way leads to.
* `Disk.SameLeaves`: between two file systems nothing has become of files and links.
* `Disk.sameLeaves_makeFolders`: making directories is of this kind.
-/

namespace Relabel.Disk

variable {d d' d'' : Disk} {i : Nat} {p : Path} {way : List FileName}

/-! ## Files and links -/

/-- The file or link at the end of a way of names from a node on. -/
def leafFrom (d : Disk) (i : Nat) (way : List FileName) : Option Node :=
  ((d.lookup i way).bind d.node?).filter (!·.isFolder)

/-- Every way from the root leads to the same files and links. -/
def SameLeaves (d d' : Disk) : Prop := ∀ way, d'.leafFrom root way = d.leafFrom root way

namespace SameLeaves

theorem refl (d : Disk) : d.SameLeaves d := fun _ => rfl

/-- Leaves stay the same over two changes. -/
theorem trans (h : d.SameLeaves d') (h' : d'.SameLeaves d'') : d.SameLeaves d'' :=
  fun way => (h' way).trans (h way)

end SameLeaves

theorem leafFrom_nil (d : Disk) (i : Nat) : d.leafFrom i [] = (d.node? i).filter (!·.isFolder) :=
  rfl

theorem leafFrom_cons (d : Disk) (i : Nat) (n : FileName) (rest : List FileName) :
    d.leafFrom i (n :: rest) = (d.nodeAt ⟨i, n⟩).bind (d.leafFrom · rest) := by
  unfold leafFrom
  rw [lookup]
  cases d.nodeAt ⟨i, n⟩ <;> rfl

/-- No way leads through a node that is not there. -/
theorem leafFrom_of_node?_eq_none (h : d.node? i = none) (way : List FileName) :
    d.leafFrom i way = none := by
  cases way with
  | nil => rw [leafFrom_nil, h]; rfl
  | cons n rest =>
    rw [leafFrom_cons, nodeAt, entries, h]
    rfl

/-! ## New directories -/

section

variable {dir up : Nat} {es : Entries} {name : FileName}

theorem node?_create (h : d.node? dir = some (.folder up es)) (n : Node) (j : Nat) :
    (d.create dir name n).node? j =
      if j = dir then some (.folder up (es.put name d.nodes.length))
      else if j = d.nodes.length then some n else d.node? j := by
  have hlt : dir < d.nodes.length := (List.getElem?_eq_some_iff.mp h).1
  have hold : ({ d with nodes := d.nodes ++ [n] } : Disk).node? dir = some (.folder up es) :=
    (List.getElem?_append_left hlt).trans h
  rw [create, entries, h, setEntries, hold]
  dsimp only
  rw [node?_setNode hold]
  split
  · rfl
  split
  · next hj => exact hj ▸ List.getElem?_concat_length
  · next hj =>
    unfold node?
    rcases Nat.lt_or_ge j d.nodes.length with hlt | hge
    · exact List.getElem?_append_left hlt
    · rw [List.getElem?_eq_none hge, List.getElem?_eq_none]
      rw [List.length_append, List.length_singleton]
      omega

/-- A new directory stands in its slot, and all other slots are as they were. -/
theorem nodeAt_create (h : d.node? dir = some (.folder up es)) (a : Slot) :
    (d.create dir name (.folder dir [])).nodeAt a =
      if a = ⟨dir, name⟩ then some d.nodes.length else d.nodeAt a := by
  obtain ⟨j, n⟩ := a
  have hfree : d.node? d.nodes.length = none := List.getElem?_eq_none (Nat.le_refl _)
  unfold nodeAt entries
  rw [node?_create h]
  by_cases hj : j = dir
  · subst hj
    rw [if_pos rfl, h]
    simpa [eq_comm] using Entries.get?_put name n d.nodes.length es
  rw [if_neg hj, if_neg fun ha => hj (congrArg Slot.dir ha)]
  by_cases hlen : j = d.nodes.length
  · rw [if_pos hlen, hlen, hfree]
  · rw [if_neg hlen]

theorem leafFrom_create (hf : d.isFolder dir = true) (hn : d.nodeAt ⟨dir, name⟩ = none)
    (i : Nat) (way : List FileName) :
    (d.create dir name (.folder dir [])).leafFrom i way = d.leafFrom i way := by
  obtain ⟨up, es, hdir⟩ := node?_of_isFolder hf
  have hfree : d.node? d.nodes.length = none := List.getElem?_eq_none (Nat.le_refl _)
  induction way generalizing i with
  | nil =>
    rw [leafFrom_nil, leafFrom_nil, node?_create hdir]
    split
    · next hi => rw [hi, hdir]; rfl
    split
    · next hi => rw [hi, hfree]; rfl
    · rfl
  | cons n rest ih =>
    rw [leafFrom_cons, leafFrom_cons, nodeAt_create hdir]
    split
    · -- The new directory leads nowhere.
      next ha =>
      rw [ha, hn, Option.bind_some, ih, leafFrom_of_node?_eq_none hfree]
      rfl
    · exact congrArg _ (funext fun j => ih j)

end

theorem sameLeaves_makeFolder (h : d.makeFolder p = .ok d') : d.SameLeaves d' := by
  unfold makeFolder makeEntry at h
  cases hp : d.place false p false with
  | error e =>
    rw [hp] at h
    cases h
  | ok r =>
    rw [hp] at h
    simp only [bind, Except.bind] at h
    split at h
    · cases h
      obtain ⟨hf, hn, -⟩ := place_stands hp
      exact leafFrom_create hf hn root
    · cases h

/-- A directory that is there already need not be made. -/
theorem sameLeaves_ensureFolder (h : d.ensureFolder p = .ok d') : d.SameLeaves d' := by
  unfold ensureFolder at h
  split at h
  · next hm =>
    cases h
    exact sameLeaves_makeFolder hm
  · split at h
    · cases h
      exact .refl d
    · cases h

/-- Directories that are made one above the other leave files and links alone, also where one of
them is refused. -/
theorem sameLeaves_makeFoldersWithin (fuel : Nat) (d : Disk) (p : Path) :
    d.SameLeaves (makeFoldersWithin fuel d p).1 := by
  induction fuel generalizing d p with
  | zero =>
    unfold makeFoldersWithin
    split
    · exact .refl d
    split
    · next hm => exact sameLeaves_makeFolder hm
    · exact .refl d
    · exact .refl d
  | succ fuel ih =>
    unfold makeFoldersWithin
    split
    · exact .refl d
    split
    · next hm => exact sameLeaves_makeFolder hm
    · cases p.parent? with
      | none => exact .refl d
      | some q =>
        have hq := ih d q
        dsimp only
        split
        · next hd => rwa [hd] at hq
        · next hd =>
          rw [hd] at hq
          split
          · next he => exact hq.trans (sameLeaves_ensureFolder he)
          · exact hq
    · exact .refl d

theorem sameLeaves_makeFolders (d : Disk) (p : Path) : d.SameLeaves (d.makeFolders p).1 :=
  sameLeaves_makeFoldersWithin p.bytes.length d p

end Relabel.Disk
