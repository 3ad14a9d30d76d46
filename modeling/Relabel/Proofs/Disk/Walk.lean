import Relabel.Disk.Walk

/-!
# The ends of walks

A request that follows links and one that does not look at a path in two ways. They see the same
thing unless the path ends in a symbolic link, and so do requests that ask for a directory and
requests that do not.

* `Disk.Place.EndsInLink`: the places where the two ways part.
* `Disk.place_congr`: elsewhere they do not.
* `Disk.place_stands`: a walk that does not follow its last link ends in what a directory holds.
* `Slot`, `Disk.slot?`: the directory and the name that a path ends in.
* `Disk.find_of_slot?`: what is found at the end of a path.
* `Disk.lookup`: ways of names from directory to directory, which meet no links.
-/

namespace Relabel

/-- A name in a directory, whether or not there is an entry of that name. -/
structure Slot where
  dir : Nat
  name : FileName
  deriving DecidableEq, Repr

namespace Disk

variable {d : Disk}

/-- The walk has ended in an entry that is a symbolic link. -/
def Place.EndsInLink (d : Disk) : Place → Prop
  | .folder _ => False
  | .entry _ _ i _ => ∃ target, i.bind d.node? = some (.link target)

/-- The place as a walk gives it that was told whether to ask for a directory. -/
def Place.withSlash (slash : Bool) : Place → Place
  | .folder i => .folder i
  | .entry dir name i _ => .entry dir name i slash

/-- What is said of an entry is so in its directory, and nothing asks for a directory. -/
def Place.Stands (d : Disk) : Place → Prop
  | .folder _ => True
  | .entry dir name i slash =>
    d.isFolder dir = true ∧ (d.entries dir).get? name = i ∧ slash = false

/-- What a walk that ends in `r` without following its last link says of another walk: where `r` is
no link, that one ends there too. -/
def Place.Settles (d : Disk) (slash : Bool) (r : Place) (other : Except Fault Place) : Prop :=
  r.Stands d ∧ (¬r.EndsInLink d → other = .ok (r.withSlash slash))

section

variable {jump jump' : Nat → List FileName → Bool → Except Fault Place} {follow slash : Bool}
  {k dir : Nat} {ns : List FileName} {r : Place}

theorem walkWith_settles
    (hj : ∀ i ns r, jump i ns false = .ok r → r.Settles d slash (jump' i ns slash))
    (h : d.walkWith jump false dir ns false = .ok r) :
    r.Settles d slash (d.walkWith jump' follow dir ns slash) := by
  induction ns generalizing dir with
  | nil =>
    cases h
    exact ⟨trivial, fun _ => rfl⟩
  | cons n rest ih =>
    rw [walkWith] at h ⊢
    split at h
    · next up es hdir =>
      have hf : d.isFolder dir = true := by rw [isFolder, hdir]; rfl
      have hes : d.entries dir = es := by rw [entries, hdir]
      -- An entry of the directory that the walk ends in, whatever else is asked for.
      have last (i : Option Nat) (hi : es.get? n = i) :
          (Place.entry dir n i false).Settles d slash (.ok (.entry dir n i slash)) :=
        ⟨⟨hf, hes ▸ hi, rfl⟩, fun _ => rfl⟩
      split at h
      · next hn =>
        rw [if_pos hn]
        exact ih h
      next hn =>
      rw [if_neg hn]
      split at h
      · next hn =>
        rw [if_pos hn]
        exact ih h
      next hn =>
      rw [if_neg hn]
      split at h
      · cases h
      next hmax =>
      rw [if_neg hmax]
      split at h
      · next hi =>
        split at h
        · next hr =>
          cases h
          rw [if_pos hr]
          exact last none hi
        · cases h
      next i hi =>
      split at h
      · next target hnode =>
        split at h
        · -- Here the two walks part.
          cases h
          exact ⟨(last (some i) hi).1, fun hl => absurd ⟨target, hnode⟩ hl⟩
        · next hr =>
          have hr : rest.isEmpty = false := by simpa using hr
          simp only [hr, Bool.false_and] at h ⊢
          exact hj _ _ _ h
      · split at h
        · next hr =>
          cases h
          rw [if_pos hr]
          exact last (some i) hi
        · next hr =>
          rw [if_neg hr]
          exact ih h
      · split at h
        · next hr =>
          cases h
          rw [if_pos hr]
          exact last (some i) hi
        · cases h
    · cases h

theorem walk_settles (h : d.walk false k dir ns false = .ok r) :
    r.Settles d slash (d.walk follow k dir ns slash) := by
  induction k generalizing dir ns r with
  | zero => exact walkWith_settles (fun _ _ _ h => by cases h) h
  | succ k ih => exact walkWith_settles (fun _ _ _ h => ih h) h

end

/-! ## Paths -/

section

variable {follow slash : Bool} {p : Path} {r : Place}

/-- A path has a place if it can be looked up and the walk along its steps comes to an end. -/
theorem place_eq_ok : d.place follow p slash = .ok r ↔
    checkPath p = .ok () ∧
      d.walk follow maxLinks (if p.isAbsolute then root else d.current) p.steps slash = .ok r := by
  unfold place
  cases checkPath p with
  | error e => exact ⟨nofun, nofun⟩
  | ok u => exact ⟨fun h => ⟨rfl, h⟩, fun h => h.2⟩

theorem place_settles (h : d.place false p false = .ok r) :
    r.Settles d slash (d.place follow p slash) := by
  obtain ⟨hp, h⟩ := place_eq_ok.mp h
  obtain ⟨hs, hw⟩ := walk_settles h
  exact ⟨hs, fun hl => place_eq_ok.mpr ⟨hp, hw hl⟩⟩

/-- Unless the path ends in a link, it leads to one place whatever is asked for. -/
theorem place_congr (h : d.place false p false = .ok r) (hl : ¬r.EndsInLink d) :
    d.place follow p slash = .ok (r.withSlash slash) :=
  (place_settles h).2 hl

theorem place_stands (h : d.place false p false = .ok r) : r.Stands d := by
  have hs : r.Settles d false (d.place false p false) := place_settles h
  exact hs.1

end

/-! ## Slots -/

/-- The node that stands in a slot. -/
def nodeAt (d : Disk) (a : Slot) : Option Nat := (d.entries a.dir).get? a.name

/-- The slot that a path ends in; a link at the end is not followed. -/
def slot? (d : Disk) (p : Path) : Option Slot :=
  match d.place false p false with
  | .ok (.entry dir name _ _) => some ⟨dir, name⟩
  | _ => none

section

variable {p : Path} {a : Slot} {i : Nat} {follow : Bool}

theorem slot?_of_place {dir : Nat} {name : FileName} {n : Option Nat} {s : Bool}
    (h : d.place false p false = .ok (.entry dir name n s)) :
    d.slot? p = some ⟨dir, name⟩ ∧ d.nodeAt ⟨dir, name⟩ = n :=
  ⟨by rw [slot?, h], (place_stands h).2.1⟩

theorem place_of_slot? (h : d.slot? p = some a) : d.isFolder a.dir = true ∧
    d.place false p false = .ok (.entry a.dir a.name (d.nodeAt a) false) := by
  unfold slot? at h
  split at h
  · next hp =>
    cases h
    obtain ⟨hf, rfl, rfl⟩ := place_stands hp
    exact ⟨hf, hp⟩
  · cases h

/-- Unless a path ends in a link, it leads to the node in its slot, be it followed or not. -/
theorem find_of_slot? (h : d.slot? p = some a) (ha : d.nodeAt a = some i)
    (hl : ∀ target, d.node? i ≠ some (.link target)) :
    d.find follow p = if p.endsInSlash && !d.isFolder i then .error .notFolder else .ok i := by
  have hp := (place_of_slot? h).2
  rw [ha] at hp
  rw [find, place_congr hp fun ⟨target, ht⟩ => hl target ht]
  rfl

theorem find_of_slot?_none (h : d.slot? p = some a) (ha : d.nodeAt a = none) :
    d.find follow p = .error .notFound := by
  have hp := (place_of_slot? h).2
  rw [ha] at hp
  rw [find, place_congr hp fun ⟨_, ht⟩ => nomatch ht]
  rfl

/-- A link that is not followed is found itself, unless the path asks for a directory. -/
theorem find_of_not_endsInSlash (h : d.slot? p = some a) (ha : d.nodeAt a = some i)
    (hs : p.endsInSlash = false) : d.find false p = .ok i := by
  rw [find, hs, (place_of_slot? h).2, ha]
  rfl

theorem find_of_isFolder (h : d.slot? p = some a) (ha : d.nodeAt a = some i)
    (hf : d.isFolder i = true) : d.find follow p = .ok i := by
  have hl (target : Path) : d.node? i ≠ some (.link target) := by
    intro ht
    rw [isFolder, ht] at hf
    cases hf
  rw [find_of_slot? h ha hl, hf, Bool.not_true, Bool.and_false]
  rfl

end

/-! ## Ways -/

/-- The node at the end of a way of names from a node on, through directories only. -/
def lookup (d : Disk) : Nat → List FileName → Option Nat
  | i, [] => some i
  | i, n :: rest => (d.nodeAt ⟨i, n⟩).bind (d.lookup · rest)

/-- The slots that a way goes through. -/
def slotsOn (d : Disk) : Nat → List FileName → List Slot
  | _, [] => []
  | i, n :: rest => ⟨i, n⟩ :: ((d.nodeAt ⟨i, n⟩).map (d.slotsOn · rest)).getD []

/-- A way stays as it is if the entries on it do. -/
theorem lookup_congr {d' : Disk} {i k : Nat} {way : List FileName} (h : d.lookup i way = some k)
    (hs : ∀ a ∈ d.slotsOn i way, ∀ j, d.nodeAt a = some j → d'.nodeAt a = some j) :
    d'.lookup i way = some k ∧ d'.slotsOn i way = d.slotsOn i way := by
  induction way generalizing i with
  | nil => exact ⟨h, rfl⟩
  | cons n rest ih =>
    unfold lookup at h ⊢
    unfold slotsOn at hs ⊢
    cases hn : d.nodeAt ⟨i, n⟩ with
    | none =>
      rw [hn] at h
      cases h
    | some j =>
      have hn' : d'.nodeAt ⟨i, n⟩ = some j := hs _ (List.mem_cons_self ..) j hn
      rw [hn] at h hs
      obtain ⟨hl, hs⟩ := ih h fun a ha => hs a (List.mem_cons_of_mem _ ha)
      rw [hn']
      exact ⟨hl, congrArg _ hs⟩

end Disk
end Relabel
