import Relabel.Proofs.Disk.Sibling

/-!
# Entries that move

What a file system has to be like to be a tree, and what it takes that an entry with all below it
moves to another name of the same directory.

* `Disk.IsTree`: each directory knows the directory that holds it, and all lie below the root.
* `Disk.IsTree.isAbove_of_lookup`: a way of names leads downwards.
* `Disk.Moved`: an entry has moved, and nothing else has changed.
* `Disk.moved_iff`: a renaming within a directory moves its entry exactly if the new name was free.
* `Disk.free_iff`: what it takes that the new name was free.
* `Disk.find_moved`: the old path leads nowhere afterwards.
-/

namespace Relabel

theorem Entries.mem_of_get? {es : Entries} {n : FileName} {i : Nat} (h : es.get? n = some i) :
    (n, i) ∈ es := by
  induction es with
  | nil => cases h
  | cons e es ih =>
    obtain ⟨m, k⟩ := e
    rw [Entries.get?] at h
    split at h
    · next hm =>
      cases h
      exact hm ▸ List.mem_cons_self
    · exact List.mem_cons_of_mem _ (ih h)

namespace Disk

variable {d d' : Disk} {p q : Path} {a b c : Slot} {i j k x : Nat} {way : List FileName}

/-! ## Trees -/

/-- The directory above a directory. -/
def up? (d : Disk) (i : Nat) : Option Nat :=
  match d.node? i with
  | some (.folder up _) => some up
  | _ => none

/-- Directories that are held by a directory know which one it is, the root is above itself, and it
is above all directories. -/
structure IsTree (d : Disk) : Prop where
  up : ∀ j < d.nodes.length, ∀ e ∈ d.entries j, d.isFolder e.2 = true → d.up? e.2 = some j
  root : d.up? root = some root
  above : ∀ i < d.nodes.length, d.isFolder i = true → d.isAbove Disk.root d.nodes.length i = true

instance (d : Disk) : Decidable d.IsTree :=
  decidable_of_iff
    ((∀ j < d.nodes.length, ∀ e ∈ d.entries j, d.isFolder e.2 = true → d.up? e.2 = some j) ∧
      d.up? root = some root ∧
      ∀ i < d.nodes.length, d.isFolder i = true → d.isAbove root d.nodes.length i = true)
    ⟨fun ⟨hu, hr, ha⟩ => ⟨hu, hr, ha⟩, fun ⟨hu, hr, ha⟩ => ⟨hu, hr, ha⟩⟩

theorem lt_of_node? {n : Node} (h : d.node? i = some n) : i < d.nodes.length :=
  (List.getElem?_eq_some_iff.mp h).1

/-- What holds an entry is a directory. -/
theorem isFolder_of_nodeAt (h : d.nodeAt a = some i) : d.isFolder a.dir = true := by
  unfold nodeAt entries at h
  split at h
  · next hn =>
    rw [isFolder, hn]
    rfl
  · cases h

theorem isAbove_self (i : Nat) : d.isAbove i (x + 1) i = true := by
  simp [isAbove]

theorem isAbove_succ : d.isAbove i (x + 1) j = true ↔
    i = j ∨ ∃ up, d.up? j = some up ∧ up ≠ j ∧ d.isAbove i x up = true := by
  rw [isAbove, up?, Bool.or_eq_true, beq_iff_eq]
  refine or_congr_right ?_
  cases d.node? j with
  | none => simp
  | some n => cases n <;> simp

/-- What is above a directory is below what is above that. -/
theorem isAbove_of_up? (h : d.isAbove i x j = true) (hup : d.up? i = some k) :
    d.isAbove k (x + 1) j = true := by
  induction x generalizing j with
  | zero => cases h
  | succ x ih =>
    rcases isAbove_succ.mp h with rfl | ⟨up, hj, hne, h⟩
    · by_cases hk : k = i
      · subst hk
        exact isAbove_self k
      · exact isAbove_succ.mpr (.inr ⟨k, hup, hk, isAbove_self k⟩)
    · exact isAbove_succ.mpr (.inr ⟨up, hj, hne, ih h⟩)

/-- A way up to a directory is no longer than the one from the root. -/
theorem isAbove_of_isAbove_root {y : Nat} (hroot : d.up? root = some root)
    (h : d.isAbove root y j = true) (hi : d.isAbove i x j = true) : d.isAbove i y j = true := by
  induction y generalizing x j with
  | zero => cases h
  | succ y ih =>
    cases x with
    | zero => cases hi
    | succ x =>
      rcases isAbove_succ.mp hi with rfl | ⟨up, hup, hne, hi⟩
      · exact isAbove_self i
      rcases isAbove_succ.mp h with rfl | ⟨up', hup', -, h⟩
      · cases hroot.symm.trans hup
        exact absurd rfl hne
      · cases hup.symm.trans hup'
        exact isAbove_succ.mpr (.inr ⟨up, hup, hne, ih h hi⟩)

theorem isFolder_of_lookup (h : d.lookup i way = some j) (hj : d.isFolder j = true) :
    d.isFolder i = true := by
  cases way with
  | nil =>
    cases h
    exact hj
  | cons n rest =>
    obtain ⟨k, hk, -⟩ := Option.bind_eq_some_iff.mp h
    exact isFolder_of_nodeAt hk

namespace IsTree

theorem up?_of_nodeAt (ht : d.IsTree) (h : d.nodeAt a = some i) (hi : d.isFolder i = true) :
    d.up? i = some a.dir := by
  obtain ⟨up, es, hdir⟩ := node?_of_isFolder (isFolder_of_nodeAt h)
  exact ht.up a.dir (lt_of_node? hdir) (a.name, i) (Entries.mem_of_get? h) hi

/-- Ways of names lead downwards. -/
theorem isAbove_of_lookup (ht : d.IsTree) (h : d.lookup i way = some j)
    (hj : d.isFolder j = true) : d.isAbove i d.nodes.length j = true := by
  suffices h : d.isAbove i (way.length + 1) j = true by
    obtain ⟨up, es, hn⟩ := node?_of_isFolder hj
    exact isAbove_of_isAbove_root ht.root (ht.above j (lt_of_node? hn) hj) h
  induction way generalizing i with
  | nil =>
    cases h
    exact isAbove_self j
  | cons n rest ih =>
    obtain ⟨k, hk, h⟩ := Option.bind_eq_some_iff.mp h
    exact isAbove_of_up? (ih h) (ht.up?_of_nodeAt hk (isFolder_of_lookup h hj))

end IsTree

/-! ## What stands below an entry -/

/-- A directory is not moved to a place below itself. -/
theorem isAbove_of_rename (h : d.rename p q = .ok d') (hb : d.slot? p = some b)
    (hc : d.slot? q = some c) (hi : d.nodeAt b = some i) (hf : d.isFolder i = true) :
    d.isAbove i d.nodes.length c.dir = false := by
  obtain ⟨-, hp⟩ := place_of_slot? hb
  obtain ⟨-, hq⟩ := place_of_slot? hc
  rw [hi] at hp
  unfold rename at h
  rw [(place_eq_ok.mp hp).1, (place_eq_ok.mp hq).1, hp, hq] at h
  simp only [bind, Except.bind, hf, Bool.not_true, Bool.false_and, Bool.true_and] at h
  split at h
  · next hbad => cases hbad
  split at h
  · cases h
  · next habove => exact Bool.eq_false_iff.mpr habove

/-- No way leads from what is renamed to the directory that it stands in. -/
theorem lookup_ne_of_rename (ht : d.IsTree) (h : d.rename p q = .ok d') (hb : d.slot? p = some b)
    (hc : d.slot? q = some c) (hi : d.nodeAt b = some i) (way : List FileName) :
    d.lookup i way ≠ some c.dir := by
  intro hl
  have hdir := (place_of_slot? hc).1
  have habove := isAbove_of_rename h hb hc hi (isFolder_of_lookup hl hdir)
  rw [ht.isAbove_of_lookup hl hdir] at habove
  cases habove

/-- Ways that do not lead to a directory are as they were if only this directory has changed. -/
theorem lookup_of_frame (h : ∀ c : Slot, c.dir ≠ x → d'.nodeAt c = d.nodeAt c)
    (hx : ∀ way, d.lookup i way ≠ some x) (way : List FileName) :
    d'.lookup i way = d.lookup i way := by
  induction way generalizing i with
  | nil => rfl
  | cons n rest ih =>
    have hi : i ≠ x := fun hi => hx [] (congrArg some hi)
    rw [lookup, lookup, h ⟨i, n⟩ hi]
    cases hn : d.nodeAt ⟨i, n⟩ with
    | none => rfl
    | some k =>
      refine ih fun way hway => hx (n :: way) ?_
      rw [lookup, hn]
      exact hway

/-! ## Moves -/

section

variable {es : Entries}

theorem current_setEntries (j : Nat) : (d.setEntries j es).current = d.current := by
  unfold setEntries
  split <;> rfl

theorem up?_setFolder (hi : d.isFolder i = true) :
    (d.setNode i (.folder k es)).up? j = if j = i then some k else d.up? j := by
  obtain ⟨up, es', hn⟩ := node?_of_isFolder hi
  unfold up?
  rw [node?_setNode hn]
  by_cases hj : j = i
  · rw [if_pos hj, if_pos hj]
  · rw [if_neg hj, if_neg hj]

/-- Nothing changes where the directory above a directory is set to what it is. -/
theorem up?_setFolder_self (hn : d.node? i = some (.folder k es)) {es' : Entries} :
    (d.setNode i (.folder k es')).up? j = d.up? j := by
  rw [up?_setFolder (by rw [isFolder, hn]; rfl)]
  split
  · next hj => rw [hj, up?, hn]
  · rfl

theorem up?_setEntries (i : Nat) : (d.setEntries i es).up? j = d.up? j := by
  unfold setEntries
  split
  · next hn => exact up?_setFolder_self hn
  · rfl

theorem current_withUp (i up : Nat) : (d.withUp i up).current = d.current := by
  unfold withUp
  split <;> rfl

theorem up?_withUp (h : d.isFolder i = true → d.up? i = some k) :
    (d.withUp i k).up? j = d.up? j := by
  unfold withUp
  split
  · next up es hn =>
    have hk : up = k := by
      have hup := h (by rw [isFolder, hn]; rfl)
      rw [up?, hn] at hup
      exact Option.some.inj hup
    exact up?_setFolder_self (hk ▸ hn)
  · rfl

theorem current_moveEntry (d : Disk) (i : Nat) (a b : Slot) :
    (d.moveEntry i a.dir a.name b.dir b.name).current = d.current := by
  rw [moveEntry_eq, current_withUp, withEntry, current_setEntries, withoutEntry, current_setEntries]

theorem up?_moveEntry (h : d.isFolder i = true → d.up? i = some b.dir) (j : Nat) :
    (d.moveEntry i a.dir a.name b.dir b.name).up? j = d.up? j := by
  have hup (j : Nat) : ((d.withoutEntry a).withEntry b i).up? j = d.up? j := by
    rw [withEntry, up?_setEntries, withoutEntry, up?_setEntries]
  rw [moveEntry_eq, up?_withUp, hup]
  intro hf
  rw [withEntry, isFolder_setEntries, withoutEntry, isFolder_setEntries] at hf
  rw [hup, h hf]

end

/-- The entry in the slot `a`, with the node `i` and all below it, has moved to the slot `b`; all
other entries are there as they were, and there are no others. -/
structure Moved (d d' : Disk) (a b : Slot) (i : Nat) : Prop where
  current : d'.current = d.current
  up : ∀ j, d'.up? j = d.up? j
  face : ∀ j, d'.face? j = d.face? j
  gone : d'.nodeAt a = none
  there : d'.nodeAt b = some i
  kept : ∀ c j, c ≠ a → d.nodeAt c = some j → d'.nodeAt c = some j
  same : ∀ c j, c ≠ b → d'.nodeAt c = some j → d.nodeAt c = some j
  below : ∀ way, d'.lookup i way = d.lookup i way

/-- A renaming within a directory moves its entry if and only if the new name was free. -/
theorem moved_iff (ht : d.IsTree) (h : d.rename p q = .ok d') (ha : d.slot? p = some a)
    (hb : d.slot? q = some b) (hi : d.nodeAt a = some i) (hdir : b.dir = a.dir) :
    d.Moved d' a b i ↔ d.nodeAt b = none := by
  have hbelow := lookup_ne_of_rename ht h ha hb hi
  obtain ⟨-, ⟨hj, rfl⟩ | ⟨hne, -, rfl⟩⟩ := rename_cases h ha hb hi
  · constructor
    · intro hm
      cases hi.symm.trans hm.gone
    · intro hfree
      cases hj.symm.trans hfree
  have hat := nodeAt_moveEntry i (place_of_slot? ha).1 (place_of_slot? hb).1
  have hba : b ≠ a := fun hba => hne (hba ▸ hi)
  constructor
  · intro hm
    -- What stood there would have been kept.
    refine Option.eq_none_iff_forall_ne_some.mpr fun j hj => ?_
    cases (hm.kept b j hba hj).symm.trans hm.there
    exact hne hj
  intro hfree
  constructor
  case current => exact current_moveEntry d i a b
  case up => exact up?_moveEntry fun hf => hdir ▸ ht.up?_of_nodeAt hi hf
  case face =>
    intro j
    exact face?_moveEntry d i a b
  case gone => rw [hat, if_neg hba.symm, if_pos rfl]
  case there => rw [hat, if_pos rfl]
  case kept =>
    intro c j hc hj
    have hcb : c ≠ b := by
      rintro rfl
      cases hj.symm.trans hfree
    rw [hat, if_neg hcb, if_neg hc, hj]
  case same =>
    intro c j hc hj
    rw [hat, if_neg hc] at hj
    split at hj
    · cases hj
    · exact hj
  case below =>
    refine lookup_of_frame ?_ hbelow
    intro c hc
    have hca : c ≠ a := fun hca => hc (hca ▸ hdir.symm)
    have hcb : c ≠ b := fun hcb => hc (hcb ▸ rfl)
    rw [hat, if_neg hcb, if_neg hca]

/-- Whether both paths lead to one node is seen in the slot that the new one ends in. -/
theorem sameNode_iff_nodeAt (h : d.rename p q = .ok d') (ha : d.slot? p = some a)
    (hb : d.slot? q = some b) (hi : d.nodeAt a = some i) :
    d.sameNode p q = true ↔ d.nodeAt b = some i := by
  obtain ⟨hs, hcases⟩ := rename_cases h ha hb hi
  have hp : d.find false p = .ok i := find_renamed ha hi fun hf => (hs hf).1
  cases hj : d.nodeAt b with
  | none =>
    rw [sameNode, hp, find_of_slot?_none hb hj]
    exact iff_of_false Bool.false_ne_true (Option.some_ne_none i).symm
  | some j =>
    have hq : d.find false q = .ok j := by
      refine find_renamed hb hj fun hf => ?_
      rcases hcases with ⟨hi', -⟩ | ⟨-, hr, -⟩
      · cases hj.symm.trans hi'
        exact (hs hf).2
      · cases hfi : d.isFolder i with
        | true =>
          rw [isFolder_of_checkReplace (hr j hj) hfi] at hf
          cases hf
        | false => exact (hs hfi).2
    rw [sameNode_iff hp hq, eq_comm, Option.some.injEq]

/-- The new name of a renaming was free, for one who has looked where the new path leads, unless it
was another name of the same node or that of a link that leads to nothing. -/
theorem free_iff (h : d.rename p q = .ok d') (hg : d.pathExists q = true → d.sameNode p q = true)
    (ha : d.slot? p = some a) (hb : d.slot? q = some b) (hi : d.nodeAt a = some i) :
    d.nodeAt b = none ↔ d.sameNode p q = false ∧ d.hitsStrayLink p q = false := by
  have hsame := sameNode_iff_nodeAt h ha hb hi
  obtain ⟨hs, hcases⟩ := rename_cases h ha hb hi
  constructor
  · intro hfree
    constructor
    · refine Bool.eq_false_iff.mpr fun heq => ?_
      cases hfree.symm.trans (hsame.mp heq)
    · rw [hitsStrayLink, find_of_slot?_none hb hfree]
      rfl
  · rintro ⟨hne, hstray⟩
    rcases hcases with ⟨hj, -⟩ | ⟨hj, hr, -⟩
    · rw [hsame.mpr hj] at hne
      cases hne
    · have hiff := hitsStrayLink_iff ha hb hi hj hr hs hg
      rw [hstray] at hiff
      exact Option.not_isSome_iff_eq_none.mp fun hsome => Bool.false_ne_true (hiff.mpr hsome)

/-- Nothing happens where both paths lead to one node. -/
theorem eq_of_sameNode (h : d.rename p q = .ok d') (hs : d.sameNode p q = true) : d' = d := by
  obtain ⟨a, b, i, ha, hb, hi, -⟩ := nodeAt_target h
  have hj := (sameNode_iff_nodeAt h ha hb hi).mp hs
  obtain ⟨-, ⟨-, hd⟩ | ⟨hne, -, -⟩⟩ := rename_cases h ha hb hi
  · exact hd
  · exact absurd hj hne

/-! ## Where paths lead afterwards -/

section

variable {up : Nat} {es : Entries} {n : FileName}

theorem node?_eq_folder : d.node? j = some (.folder up es) ↔
    d.up? j = some up ∧ d.isFolder j = true ∧ d.entries j = es := by
  rw [up?, isFolder, entries]
  cases d.node? j with
  | none => simp
  | some n => cases n <;> simp [Node.isFolder]

namespace Moved

theorem node?_folder (h : d.Moved d' a b x) (hj : d.node? j = some (.folder up es)) :
    d'.node? j = some (.folder up (d'.entries j)) := by
  obtain ⟨hup, hf, -⟩ := node?_eq_folder.mp hj
  exact node?_eq_folder.mpr ⟨(h.up j).trans hup, (isFolder_congr (h.face j)).trans hf, rfl⟩

theorem node?_link {target : Path} (h : d.Moved d' a b x) (hj : d.node? j = some (.link target)) :
    d'.node? j = some (.link target) :=
  face?_eq_link.mp ((h.face j).trans (face?_eq_link.mpr hj))

/-- A step that leads on has to be there afterwards for a walk to lead on. -/
theorem get?_kept {jump : Nat → List FileName → Bool → Except Fault Place} {follow slash : Bool}
    {dir : Nat} {rest : List FileName} {r : Place} (h : d.Moved d' a b x)
    (hdir : d.node? dir = some (.folder up es)) (hn : Nameable n) (hget : es.get? n = some k)
    (hrest : rest.isEmpty = false) (hr : d'.walkWith jump follow dir (n :: rest) slash = .ok r) :
    (d'.entries dir).get? n = some k := by
  have hnode : d.nodeAt ⟨dir, n⟩ = some k := by
    rw [nodeAt, entries, hdir]
    exact hget
  by_cases ha : (⟨dir, n⟩ : Slot) = a
  · have hgone : (d'.entries dir).get? n = none := by
      have hgone := h.gone
      rwa [← ha] at hgone
    rw [walkWith, h.node?_folder hdir] at hr
    simp only [if_neg hn.ne_dot, if_neg hn.ne_dotDot, if_neg (Nat.not_lt_of_le hn.length_le),
      hgone, hrest] at hr
    cases hr
  · exact h.kept _ k ha hnode

end Moved

end

section

variable {jump jump' : Nat → List FileName → Bool → Except Fault Place} {dir : Nat}
  {ns : List FileName} {slash slash' : Bool} {r : Place}

/-- A walk that used to end in the slot ends there still, if anywhere, and finds it empty. -/
theorem EndsAt.moved (hm : d.Moved d' a b x)
    (hj : ∀ j ns r, jump j ns false = .ok (.entry a.dir a.name (some i) false) →
      jump' j ns slash' = .ok r → r = .entry a.dir a.name none slash')
    (h : d.EndsAt jump false a (some i) false dir ns slash) (hs : slash = false)
    (hr : d'.walkWith jump' false dir ns slash' = .ok r) : r = .entry a.dir a.name none slash' := by
  induction h with
  | dot hdir _ ih =>
    rw [walkWith, hm.node?_folder hdir] at hr
    exact ih hs hr
  | dotDot hdir _ ih =>
    rw [walkWith, hm.node?_folder hdir] at hr
    exact ih hs hr
  | last hdir hn =>
    have hgone : (d'.entries a.dir).get? a.name = none := hm.gone
    rw [walkWith, hm.node?_folder hdir] at hr
    simp only [if_neg hn.ne_dot, if_neg hn.ne_dotDot, if_neg (Nat.not_lt_of_le hn.length_le),
      hgone] at hr
    cases hr
    rfl
  | through hdir hn hget hnode hrest _ ih =>
    have hget' := hm.get?_kept hdir hn hget hrest hr
    rw [walkWith, hm.node?_folder hdir] at hr
    simp only [if_neg hn.ne_dot, if_neg hn.ne_dotDot, if_neg (Nat.not_lt_of_le hn.length_le),
      hget', hm.node?_folder hnode, hrest] at hr
    exact ih hs hr
  | @link _ _ _ _ _ _ rest _ hdir hn hget hnode hlast hjump =>
    subst hs
    have hrest : rest.isEmpty = false := by simpa using hlast
    have hget' := hm.get?_kept hdir hn hget hrest hr
    rw [walkWith, hm.node?_folder hdir] at hr
    simp only [if_neg hn.ne_dot, if_neg hn.ne_dotDot, if_neg (Nat.not_lt_of_le hn.length_le),
      hget', hm.node?_link hnode, hrest] at hr
    rw [hrest] at hjump
    exact hj _ _ _ hjump hr

theorem walk_moved (hm : d.Moved d' a b x)
    (h : d.walk false k dir ns false = .ok (.entry a.dir a.name (some i) false))
    (hr : d'.walk false k dir ns slash' = .ok r) : r = .entry a.dir a.name none slash' := by
  induction k generalizing dir ns r with
  | zero => exact (endsAt_of_walkWith h).moved hm (fun _ _ _ h => by cases h) rfl hr
  | succ k ih => exact (endsAt_of_walkWith h).moved hm (fun _ _ _ h hr => ih h hr) rfl hr

/-- A path that used to end in the slot leads nowhere. -/
theorem find_moved (hm : d.Moved d' a b x) (ha : d.slot? p = some a) (hi : d.nodeAt a = some i) :
    (d'.find false p).toBool = false := by
  obtain ⟨-, hp⟩ := place_of_slot? ha
  rw [hi] at hp
  rw [find]
  cases hr : d'.place false p p.endsInSlash with
  | error e => rfl
  | ok r =>
    have hw := (place_eq_ok.mp hr).2
    rw [hm.current] at hw
    cases walk_moved hm (place_eq_ok.mp hp).2 hw
    rfl

end

end Disk
end Relabel
