import Relabel.Disk.File
import Relabel.Proofs.Disk.Walk

/-!
# What a renaming does to a file system

A renaming takes one entry out of its directory and puts it elsewhere. An entry that stands there is
replaced. Who looks first whether the new path leads anywhere sees all such entries but one kind:
links that lead to nothing.

* `Disk.face?`: what is seen of a node.
* `Disk.Renames`: all that a renaming can do.
* `Disk.hitsStrayLink`: the new path ends in a link that leads to nothing.
* `Disk.nodeAt_rename`, `Disk.lost_of_hitsStrayLink`: such links are all that is lost.
-/

namespace Relabel

/-- What a node shows that is not in other nodes. -/
def Node.face : Node → Node
  | file content => file content
  | folder .. => folder 0 []
  | link target => link target

namespace Disk

variable {d d' : Disk} {i j x : Nat}

/-- Kind of a node, with content of a file and target of a link. -/
def face? (d : Disk) (i : Nat) : Option Node := (d.node? i).map Node.face

/-- A link shows its target. -/
theorem face?_eq_link {target : Path} :
    d.face? j = some (.link target) ↔ d.node? j = some (.link target) := by
  rw [face?]
  cases d.node? j with
  | none => simp
  | some n => cases n <;> simp [Node.face]

theorem isFolder_congr (h : d'.face? j = d.face? j) : d'.isFolder j = d.isFolder j := by
  have hface (d : Disk) : d.isFolder j = (d.face? j).any Node.isFolder := by
    rw [face?, isFolder]
    cases d.node? j with
    | none => rfl
    | some n => cases n <;> rfl
  rw [hface, hface, h]

/-! ## Changes of directories -/

theorem node?_setNode {n m : Node} (h : d.node? i = some m) :
    (d.setNode i n).node? x = if x = i then some n else d.node? x := by
  have hi : i < d.nodes.length := (List.getElem?_eq_some_iff.mp h).1
  unfold setNode node?
  rw [List.getElem?_set]
  by_cases hx : x = i
  · subst hx
    rw [if_pos rfl, if_pos rfl, if_pos hi]
  · rw [if_neg (Ne.symm hx), if_neg hx]

theorem node?_of_isFolder (h : d.isFolder i = true) : ∃ up es, d.node? i = some (.folder up es) := by
  unfold isFolder at h
  cases hn : d.node? i with
  | none => rw [hn] at h; cases h
  | some n =>
    cases n with
    | folder up es => exact ⟨up, es, rfl⟩
    | file | link => rw [hn] at h; cases h

section

variable {up : Nat} {es : Entries}

theorem entries_setFolder (h : d.isFolder i = true) :
    (d.setNode i (.folder up es)).entries x = if x = i then es else d.entries x := by
  obtain ⟨up', es', hn⟩ := node?_of_isFolder h
  unfold entries
  rw [node?_setNode hn]
  by_cases hx : x = i
  · rw [if_pos hx, if_pos hx]
  · rw [if_neg hx, if_neg hx]

theorem isFolder_setFolder (h : d.isFolder i = true) :
    (d.setNode i (.folder up es)).isFolder x = d.isFolder x := by
  obtain ⟨up', es', hn⟩ := node?_of_isFolder h
  unfold isFolder
  rw [node?_setNode hn]
  split
  · next hx => rw [hx, hn]; rfl
  · rfl

/-- All that is seen of a directory is its entries. -/
theorem face?_setFolder (h : d.isFolder i = true) :
    (d.setNode i (.folder up es)).face? x = d.face? x := by
  obtain ⟨up', es', hn⟩ := node?_of_isFolder h
  unfold face?
  rw [node?_setNode hn]
  split
  · next hx => rw [hx, hn]; rfl
  · rfl

theorem setEntries_eq (es : Entries) (h : d.isFolder i = true) :
    ∃ up, d.setEntries i es = d.setNode i (.folder up es) := by
  obtain ⟨up, es', hn⟩ := node?_of_isFolder h
  exact ⟨up, by rw [setEntries, hn]⟩

end

section

variable {dir dir' : Nat} {name name' : FileName}

/-- Takes an entry away. -/
def withoutEntry (d : Disk) (a : Slot) : Disk :=
  d.setEntries a.dir ((d.entries a.dir).erase a.name)

/-- Lets a node stand in a slot. -/
def withEntry (d : Disk) (a : Slot) (i : Nat) : Disk :=
  d.setEntries a.dir ((d.entries a.dir).put a.name i)

/-- Sets the directory above a node that is a directory. -/
def withUp (d : Disk) (i up : Nat) : Disk :=
  match d.node? i with
  | some (.folder _ es) => d.setNode i (.folder up es)
  | _ => d

/-- A move takes the entry away, puts its node elsewhere, and tells a directory where it is now. -/
theorem moveEntry_eq (d : Disk) (i : Nat) (a b : Slot) :
    d.moveEntry i a.dir a.name b.dir b.name = ((d.withoutEntry a).withEntry b i).withUp i b.dir :=
  rfl

theorem nodeAt_setEntries {es : Entries} (h : d.isFolder i = true) (a : Slot) :
    (d.setEntries i es).nodeAt a = if a.dir = i then es.get? a.name else d.nodeAt a := by
  obtain ⟨up, hs⟩ := setEntries_eq es h
  rw [nodeAt, hs, entries_setFolder h]
  split <;> rfl

theorem nodeAt_withoutEntry {b : Slot} (h : d.isFolder b.dir = true) (a : Slot) :
    (d.withoutEntry b).nodeAt a = if a = b then none else d.nodeAt a := by
  obtain ⟨x, n⟩ := a
  obtain ⟨y, m⟩ := b
  rw [withoutEntry, nodeAt_setEntries h, Entries.get?_erase]
  by_cases hx : x = y
  · by_cases hn : m = n
    · simp [hx, hn]
    · simp [hx, hn, Ne.symm hn, nodeAt]
  · simp [hx, nodeAt]

theorem nodeAt_withEntry {b : Slot} (i : Nat) (h : d.isFolder b.dir = true) (a : Slot) :
    (d.withEntry b i).nodeAt a = if a = b then some i else d.nodeAt a := by
  obtain ⟨x, n⟩ := a
  obtain ⟨y, m⟩ := b
  rw [withEntry, nodeAt_setEntries h, Entries.get?_put]
  by_cases hx : x = y
  · by_cases hn : m = n
    · simp [hx, hn]
    · simp [hx, hn, Ne.symm hn, nodeAt]
  · simp [hx, nodeAt]

theorem nodeAt_withUp (i up : Nat) (a : Slot) : (d.withUp i up).nodeAt a = d.nodeAt a := by
  unfold withUp
  split
  · next up' es hn =>
    have h : d.isFolder i = true := by rw [isFolder, hn]; rfl
    rw [nodeAt, entries_setFolder h]
    split
    · next hx => rw [nodeAt, hx, entries, hn]
    · rfl
  · rfl

theorem isFolder_setEntries (i : Nat) (es : Entries) :
    (d.setEntries i es).isFolder x = d.isFolder x := by
  unfold setEntries
  split
  · next hn => exact isFolder_setFolder (by rw [isFolder, hn]; rfl)
  · rfl

theorem face?_setEntries (i : Nat) (es : Entries) : (d.setEntries i es).face? x = d.face? x := by
  unfold setEntries
  split
  · next hn => exact face?_setFolder (by rw [isFolder, hn]; rfl)
  · rfl

theorem face?_withUp (i up : Nat) : (d.withUp i up).face? x = d.face? x := by
  unfold withUp
  split
  · next hn => exact face?_setFolder (by rw [isFolder, hn]; rfl)
  · rfl

/-- After an entry has moved it stands in its new slot, the old one is empty, and the others are
what they were. -/
theorem nodeAt_moveEntry {b c : Slot} (i : Nat) (hb : d.isFolder b.dir = true)
    (hc : d.isFolder c.dir = true) (a : Slot) :
    (d.moveEntry i b.dir b.name c.dir c.name).nodeAt a =
      if a = c then some i else if a = b then none else d.nodeAt a := by
  have hc' : (d.withoutEntry b).isFolder c.dir = true := (isFolder_setEntries ..).trans hc
  rw [moveEntry_eq, nodeAt_withUp, nodeAt_withEntry i hc', nodeAt_withoutEntry hb]

theorem face?_moveEntry (d : Disk) (i : Nat) (b c : Slot) :
    (d.moveEntry i b.dir b.name c.dir c.name).face? x = d.face? x := by
  rw [moveEntry_eq, face?_withUp, withEntry, face?_setEntries, withoutEntry, face?_setEntries]

end

/-! ## Renamings -/

section

variable {p q : Path}

/-- All that a renaming can do. -/
inductive Renames (d : Disk) (p q : Path) : Disk → Prop
  /-- Both paths end in one node, and nothing happens. -/
  | stay {b c : Slot} {i : Nat} : d.slot? p = some b → d.slot? q = some c →
    d.nodeAt b = some i → d.nodeAt c = some i →
    (d.isFolder i = false → p.endsInSlash = false ∧ q.endsInSlash = false) → Renames d p q d
  /-- The entry moves, onto another one if need be. -/
  | move {b c : Slot} {i : Nat} : d.slot? p = some b → d.slot? q = some c →
    d.nodeAt b = some i → d.nodeAt c ≠ some i →
    (∀ j, d.nodeAt c = some j → d.checkReplace i j = .ok ()) →
    (d.isFolder i = false → p.endsInSlash = false ∧ q.endsInSlash = false) →
    Renames d p q (d.moveEntry i b.dir b.name c.dir c.name)

theorem renames_of_rename (h : d.rename p q = .ok d') : d.Renames p q d' := by
  unfold rename at h
  cases hp : checkPath p with
  | error e => rw [hp] at h; cases h
  | ok =>
  cases hq : checkPath q with
  | error e => rw [hp, hq] at h; cases h
  | ok =>
  rw [hp, hq] at h
  simp only [bind, Except.bind] at h
  cases hb : d.place false p false with
  | error e => rw [hb] at h; cases h
  | ok r =>
  rw [hb] at h
  dsimp only at h
  split at h
  · cases h
  · cases h
  next dir name i s =>
  cases hc : d.place false q false with
  | error e => rw [hc] at h; cases h
  | ok r' =>
  rw [hc] at h
  dsimp only at h
  split at h
  · cases h
  next dir' name' j s' =>
  obtain ⟨hps, hi⟩ := slot?_of_place hb
  obtain ⟨hqs, hj⟩ := slot?_of_place hc
  split at h
  · cases h
  next hs =>
  have hs : d.isFolder i = false → p.endsInSlash = false ∧ q.endsInSlash = false := by
    simpa using hs
  split at h
  · cases h
  split at h
  · next hji =>
    cases h
    exact .stay hps hqs hi (hji ▸ hj) hs
  next hji =>
  rw [← hj] at hji
  split at h
  · next k =>
    cases hr : d.checkReplace i k with
    | error e => rw [hr] at h; cases h
    | ok =>
      rw [hr] at h
      cases h
      exact .move hps hqs hi hji (fun k' hk => by cases hj.symm.trans hk; exact hr) hs
  · cases h
    exact .move hps hqs hi hji (fun k' hk => by cases hj.symm.trans hk) hs

/-- What a renaming does, seen from the slots that its paths end in. -/
theorem rename_cases {b c : Slot} (h : d.rename p q = .ok d') (hb : d.slot? p = some b)
    (hc : d.slot? q = some c) (hi : d.nodeAt b = some i) :
    (d.isFolder i = false → p.endsInSlash = false ∧ q.endsInSlash = false) ∧
      (d.nodeAt c = some i ∧ d' = d ∨
        d.nodeAt c ≠ some i ∧ (∀ j, d.nodeAt c = some j → d.checkReplace i j = .ok ()) ∧
          d' = d.moveEntry i b.dir b.name c.dir c.name) := by
  cases renames_of_rename h with
  | stay hb' hc' hi' hj hs =>
    cases hb.symm.trans hb'
    cases hc.symm.trans hc'
    cases hi.symm.trans hi'
    exact ⟨hs, .inl ⟨hj, rfl⟩⟩
  | move hb' hc' hi' hne hr hs =>
    cases hb.symm.trans hb'
    cases hc.symm.trans hc'
    cases hi.symm.trans hi'
    exact ⟨hs, .inr ⟨hne, hr, rfl⟩⟩

/-- The new path ends in a link that leads to nothing, and that the old path does not end in. -/
def hitsStrayLink (d : Disk) (p q : Path) : Bool :=
  (d.find false q).toBool && !d.pathExists q && !d.sameNode p q

theorem sameNode_iff (hp : d.find false p = .ok i) (hq : d.find false q = .ok j) :
    d.sameNode p q = true ↔ i = j := by
  rw [sameNode, hp, hq]
  exact beq_iff_eq

/-- What is to be renamed is found, even if its path asks for a directory. -/
theorem find_renamed {b : Slot} (hb : d.slot? p = some b) (hi : d.nodeAt b = some i)
    (hs : d.isFolder i = false → p.endsInSlash = false) : d.find false p = .ok i := by
  cases hf : d.isFolder i with
  | true => exact find_of_isFolder hb hi hf
  | false => exact find_of_not_endsInSlash hb hi (hs hf)

theorem isFolder_of_checkReplace (h : d.checkReplace i j = .ok ()) (hf : d.isFolder i = true) :
    d.isFolder j = true := by
  cases hj : d.isFolder j with
  | true => rfl
  | false => simp [checkReplace, hf, hj] at h

/-- A renaming that nothing stands in the way of, for one who has looked where the new path leads,
can only replace a link that leads to nothing. -/
theorem hitsStrayLink_iff {b c : Slot} (hb : d.slot? p = some b) (hc : d.slot? q = some c)
    (hi : d.nodeAt b = some i) (hne : d.nodeAt c ≠ some i)
    (hr : ∀ j, d.nodeAt c = some j → d.checkReplace i j = .ok ())
    (hs : d.isFolder i = false → p.endsInSlash = false ∧ q.endsInSlash = false)
    (hg : d.pathExists q = true → d.sameNode p q = true) :
    d.hitsStrayLink p q = true ↔ (d.nodeAt c).isSome = true := by
  cases hj : d.nodeAt c with
  | none =>
    have : d.hitsStrayLink p q = false := by
      rw [hitsStrayLink, find_of_slot?_none hc hj]
      rfl
    simp [this]
  | some j =>
    have hij : i ≠ j := fun h => hne (h ▸ hj)
    have hp : d.find false p = .ok i := find_renamed hb hi fun h => (hs h).1
    cases hq : q.endsInSlash with
    | true =>
      -- Then a directory is renamed, and only a directory could be in its way.
      have hf : d.isFolder i = true := by
        cases hf : d.isFolder i with
        | true => rfl
        | false => exact nomatch hq.symm.trans (hs hf).2
      have hfj : d.isFolder j = true := isFolder_of_checkReplace (hr j hj) hf
      have hex : d.pathExists q = true := by
        rw [pathExists, find_of_isFolder hc hj hfj]
        rfl
      exact absurd ((sameNode_iff hp (find_of_isFolder hc hj hfj)).mp (hg hex)) hij
    | false =>
      have hq : d.find false q = .ok j := find_of_not_endsInSlash hc hj hq
      have hn : d.sameNode p q = false :=
        Bool.eq_false_iff.mpr fun h => hij ((sameNode_iff hp hq).mp h)
      have hex : d.pathExists q = false :=
        Bool.eq_false_iff.mpr fun h => hij ((sameNode_iff hp hq).mp (hg h))
      simp [hitsStrayLink, hq, hn, hex, Except.toBool]

/-- Where both paths end in one node no link is hit. -/
theorem not_hitsStrayLink {b c : Slot} (hb : d.slot? p = some b) (hc : d.slot? q = some c)
    (hi : d.nodeAt b = some i) (hj : d.nodeAt c = some i)
    (hs : d.isFolder i = false → p.endsInSlash = false ∧ q.endsInSlash = false) :
    d.hitsStrayLink p q = false := by
  have hp : d.find false p = .ok i := find_renamed hb hi fun h => (hs h).1
  have hq : d.find false q = .ok i := find_renamed hc hj fun h => (hs h).2
  simp [hitsStrayLink, (sameNode_iff hp hq).mpr rfl]

theorem link_of_hitsStrayLink {c : Slot} (hc : d.slot? q = some c) (hj : d.nodeAt c = some j)
    (h : d.hitsStrayLink p q = true) : ∃ target, d.node? j = some (.link target) := by
  refine Classical.byContradiction fun hn => ?_
  have hl (target : Path) : d.node? j ≠ some (.link target) := fun ht => hn ⟨target, ht⟩
  have hsame : d.find true q = d.find false q :=
    (find_of_slot? hc hj hl).trans (find_of_slot? hc hj hl).symm
  simp [hitsStrayLink, pathExists, hsame] at h

section

variable {a : Slot}

/-- A renaming keeps the entries but its own, and but a link that it hits. -/
theorem nodeAt_rename (h : d.rename p q = .ok d')
    (hg : d.pathExists q = true → d.sameNode p q = true) (ha : d.nodeAt a = some i)
    (hp : d.slot? p ≠ some a) (hq : d.hitsStrayLink p q = true → d.slot? q ≠ some a) :
    d'.nodeAt a = some i := by
  cases renames_of_rename h with
  | stay => exact ha
  | @move b c i' hb hc hi hne hr hs =>
    have hac : a ≠ c := by
      rintro rfl
      exact hq ((hitsStrayLink_iff hb hc hi hne hr hs hg).mpr (by rw [ha]; rfl)) hc
    have hab : a ≠ b := fun h => hp (h ▸ hb)
    rw [nodeAt_moveEntry i' (place_of_slot? hb).1 (place_of_slot? hc).1, if_neg hac, if_neg hab, ha]

/-- A link that is hit is lost. -/
theorem lost_of_hitsStrayLink (h : d.rename p q = .ok d')
    (hg : d.pathExists q = true → d.sameNode p q = true) (hh : d.hitsStrayLink p q = true) :
    ∃ a j target, d.slot? q = some a ∧ d.nodeAt a = some j ∧ d.node? j = some (.link target) ∧
      d.slot? p ≠ some a ∧ d'.nodeAt a ≠ some j := by
  cases renames_of_rename h with
  | stay hb hc hi hj hs =>
    rw [not_hitsStrayLink hb hc hi hj hs] at hh
    cases hh
  | @move b c i hb hc hi hne hr hs =>
    obtain ⟨j, hj⟩ := Option.isSome_iff_exists.mp
      ((hitsStrayLink_iff hb hc hi hne hr hs hg).mp hh)
    have hij : i ≠ j := fun h => hne (h ▸ hj)
    obtain ⟨target, ht⟩ := link_of_hitsStrayLink hc hj hh
    refine ⟨c, j, target, hc, hj, ht, fun h => ?_, ?_⟩
    · cases hb.symm.trans h
      exact hne hi
    · rw [nodeAt_moveEntry i (place_of_slot? hb).1 (place_of_slot? hc).1, if_pos rfl]
      exact fun h => hij (Option.some.inj h)

/-- The entry that is renamed stands where its new path has ended before. -/
theorem nodeAt_target (h : d.rename p q = .ok d') : ∃ b c i, d.slot? p = some b ∧
    d.slot? q = some c ∧ d.nodeAt b = some i ∧ d'.nodeAt c = some i := by
  cases renames_of_rename h with
  | stay hb hc hi hj => exact ⟨_, _, _, hb, hc, hi, hj⟩
  | move hb hc hi =>
    refine ⟨_, _, _, hb, hc, hi, ?_⟩
    rw [nodeAt_moveEntry _ (place_of_slot? hb).1 (place_of_slot? hc).1, if_pos rfl]

/-- No renaming changes a file, a link, or whether something is a directory. -/
theorem face?_rename (h : d.rename p q = .ok d') (x : Nat) : d'.face? x = d.face? x := by
  cases renames_of_rename h with
  | stay => rfl
  | move => exact face?_moveEntry ..

end

end

end Disk
end Relabel
