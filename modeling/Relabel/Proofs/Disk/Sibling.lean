import Relabel.Proofs.Disk.LastName

/-!
# Names in one directory

A walk that does not follow a link at its end reads the last step only when it has come to the
directory. So two paths that differ in their last name only end in one directory, and who renames
by them rearranges the directory.

* `Disk.slot?_withFileName`: both paths end in one directory.
* `Disk.slots_of_rename`: a renaming to another last name stays in the directory.
* `Disk.Rearranged`: directories hold what they have held, if under other names.
-/

namespace Relabel

/-! ## Walks -/

namespace Disk

variable {d d' : Disk} {p q : Path} {a : Slot} {n m : FileName}

section

variable {jump jump' : Nat → List FileName → Bool → Except Fault Place} {k dir : Nat} {x : Slot}
  {o : Option Nat} {ns ms : List FileName} {slash : Bool}

/-- The first walk, if it ends in the entry `x`, has `n` for its last step, and the second one ends
in the entry `m` of the same directory. -/
def Beside (d : Disk) (n m : FileName) (x : Slot) (o : Option Nat)
    (walk walk' : Except Fault Place) : Prop :=
  walk = .ok (.entry x.dir x.name o false) →
    x.name = n ∧ walk' = .ok (.entry x.dir m (d.nodeAt ⟨x.dir, m⟩) false)

theorem EndsAt.beside (hn : Nameable n) (hm : Nameable m)
    (hj : ∀ j ns ms, Path.Parting n m ns ms → d.Beside n m x o (jump j ns false) (jump' j ms false))
    (h : d.EndsAt jump false x o false dir ns slash) (hs : slash = false)
    (hp : Path.Parting n m ns ms) : x.name = n ∧
      d.EndsAt jump' false ⟨x.dir, m⟩ (d.nodeAt ⟨x.dir, m⟩) false dir ms slash := by
  induction h generalizing ms with
  | dot hdir _ ih =>
    cases hp with
    | last => exact absurd rfl hn.ne_dot
    | dot hp => exact ih hs hp
    | step _ hp =>
      obtain ⟨hx, h⟩ := ih hs hp
      exact ⟨hx, .dot hdir h⟩
  | dotDot hdir _ ih =>
    cases hp with
    | last => exact absurd rfl hn.ne_dotDot
    | step _ hp =>
      obtain ⟨hx, h⟩ := ih hs hp
      exact ⟨hx, .dotDot hdir h⟩
  | last hdir hname =>
    generalize hx : x.name = last at hp hname
    cases hp with
    | last =>
      refine ⟨rfl, .last hdir hm ?_ fun _ _ _ _ => rfl⟩
      rw [nodeAt, entries, hdir]
    | dot => exact absurd rfl hname.ne_dot
    | step _ hp => cases hp.isEmpty_eq_false.1
  | through hdir hname ho hnode hr _ ih =>
    cases hp with
    | last => cases hr
    | dot => exact absurd rfl hname.ne_dot
    | step _ hp =>
      obtain ⟨hx, h⟩ := ih hs hp
      exact ⟨hx, .through hdir hname ho hnode hp.isEmpty_eq_false.2 h⟩
  | link hdir hname ho hnode hr hjump =>
    subst hs
    cases hp with
    | last => cases hr
    | dot => exact absurd rfl hname.ne_dot
    | step _ hp =>
      obtain ⟨hne, hne'⟩ := hp.isEmpty_eq_false
      rw [hne, if_neg Bool.false_ne_true] at hjump
      obtain ⟨hx, h⟩ := hj _ _ _ (hp.append _) hjump
      refine ⟨hx, .link hdir hname ho hnode (by rw [hne']; rfl) ?_⟩
      rw [hne', if_neg Bool.false_ne_true]
      exact h

theorem beside_walkWith (hn : Nameable n) (hm : Nameable m)
    (hj : ∀ j ns ms, Path.Parting n m ns ms → d.Beside n m x o (jump j ns false) (jump' j ms false))
    (hp : Path.Parting n m ns ms) : d.Beside n m x o (d.walkWith jump false dir ns false)
      (d.walkWith jump' false dir ms false) := by
  intro h
  obtain ⟨hx, he⟩ := (endsAt_of_walkWith h).beside hn hm hj rfl hp
  exact ⟨hx, walkWith_of_endsAt he⟩

theorem beside_walk (hn : Nameable n) (hm : Nameable m) (hp : Path.Parting n m ns ms) :
    d.Beside n m x o (d.walk false k dir ns false) (d.walk false k dir ms false) := by
  induction k generalizing dir ns ms with
  | zero => exact beside_walkWith hn hm (fun _ _ _ _ h => by cases h) hp
  | succ k ih => exact beside_walkWith hn hm (fun _ _ _ hp => ih hp) hp

end

/-- A path with another last name ends in the same directory. -/
theorem slot?_withFileName (hn : p.fileName? = some n) (h : d.slot? p = some a)
    (hslash : Path.slash ∉ m) (hne : m ≠ []) (hm : Nameable m)
    (hc : checkPath (p.withFileName m) = .ok ()) :
    a.name = n ∧ d.slot? (p.withFileName m) = some ⟨a.dir, m⟩ := by
  obtain ⟨-, hplace⟩ := place_of_slot? h
  obtain ⟨-, hwalk⟩ := place_eq_ok.mp hplace
  have hlast : p.steps.getLast? ≠ some .dot := fun hdot => (nameable_of_slot? h hdot).ne_dot rfl
  obtain ⟨hp, habs⟩ := Path.parting_steps hn hslash hne hlast
  obtain ⟨hname, hwalk'⟩ := beside_walk (nameable_of_slot? h hp.getLast?) hm hp hwalk
  rw [← habs] at hwalk'
  exact ⟨hname, (slot?_of_place (place_eq_ok.mpr ⟨hc, hwalk'⟩)).1⟩

/-- An entry that gets another name stays in its directory. -/
theorem slots_of_rename (hn : p.fileName? = some n) (hslash : Path.slash ∉ m) (hne : m ≠ [])
    (h : d.rename p (p.withFileName m) = .ok d') : ∃ dir,
      d.slot? p = some ⟨dir, n⟩ ∧ d.slot? (p.withFileName m) = some ⟨dir, m⟩ := by
  obtain ⟨⟨dir, name⟩, c, -, hb, hc, -⟩ := nodeAt_target h
  obtain ⟨-, hplace⟩ := place_of_slot? hc
  have hm := nameable_of_slot? hc (p.getLast?_steps_withFileName hslash hne)
  obtain ⟨rfl, hslot⟩ := slot?_withFileName hn hb hslash hne hm (place_eq_ok.mp hplace).1
  exact ⟨dir, hb, hslot⟩

/-! ## Rearranging -/

/-- All that directories hold they have held before, and all that they have held they hold, if under
other names; only links may be missing. -/
structure Rearranged (d d' : Disk) : Prop where
  old : ∀ a i, d'.nodeAt a = some i → ∃ n, d.nodeAt ⟨a.dir, n⟩ = some i
  kept : ∀ a i, d.nodeAt a = some i → (∀ target, d.face? i ≠ some (.link target)) →
    ∃ n, d'.nodeAt ⟨a.dir, n⟩ = some i
  face : ∀ i, d'.face? i = d.face? i

namespace Rearranged

variable {d'' : Disk}

theorem refl (d : Disk) : d.Rearranged d where
  old a _ ha := ⟨a.name, ha⟩
  kept a _ ha _ := ⟨a.name, ha⟩
  face _ := rfl

theorem trans (h : d.Rearranged d') (h' : d'.Rearranged d'') : d.Rearranged d'' where
  old a i ha := by
    obtain ⟨n, hn⟩ := h'.old a i ha
    exact h.old ⟨a.dir, n⟩ i hn
  kept a i ha hl := by
    obtain ⟨n, hn⟩ := h.kept a i ha hl
    exact h'.kept ⟨a.dir, n⟩ i hn fun target => h.face i ▸ hl target
  face i := (h'.face i).trans (h.face i)

end Rearranged

/-- A renaming within a directory rearranges it. -/
theorem rearranged_of_rename (h : d.rename p q = .ok d')
    (hg : d.pathExists q = true → d.sameNode p q = true) {b : Slot} {i : Nat}
    (ha : d.slot? p = some a) (hb : d.slot? q = some b) (hi : d.nodeAt a = some i)
    (hdir : b.dir = a.dir) : d.Rearranged d' := by
  obtain ⟨hs, ⟨-, rfl⟩ | ⟨hne, hr, rfl⟩⟩ := rename_cases h ha hb hi
  · exact .refl d'
  have hat := nodeAt_moveEntry i (place_of_slot? ha).1 (place_of_slot? hb).1
  constructor
  case old =>
    intro c j hc
    rw [hat] at hc
    split at hc
    · next hcb =>
      cases hc
      exact ⟨a.name, by rw [hcb, hdir]; exact hi⟩
    split at hc
    · cases hc
    · exact ⟨c.name, hc⟩
  case kept =>
    intro c j hc hl
    by_cases hca : c = a
    · cases hca
      cases hi.symm.trans hc
      refine ⟨b.name, ?_⟩
      have hslot : (⟨a.dir, b.name⟩ : Slot) = b := by rw [← hdir]
      rw [hslot, hat, if_pos rfl]
    -- An entry in the way of the renaming is a link.
    have hcb : c ≠ b := by
      rintro rfl
      have hstray := (hitsStrayLink_iff ha hb hi hne hr hs hg).mpr (by rw [hc]; rfl)
      obtain ⟨target, ht⟩ := link_of_hitsStrayLink hb hc hstray
      exact hl target (face?_eq_link.mpr ht)
    exact ⟨c.name, by rw [hat, if_neg hcb, if_neg hca]; exact hc⟩
  case face =>
    intro j
    exact face?_moveEntry d i a b

end Disk
end Relabel
