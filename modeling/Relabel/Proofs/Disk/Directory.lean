import Relabel.Proofs.Disk.Moving
import Relabel.Proofs.Disk.LastName

/-!
# Directories and their entries

Which directory a walk leads to and how many links it follows on the way there, as a relation that
does not depend on how many a walk may follow. An entry of a directory is reached from the directory
as it is reached along a path through it, and none of this depends on the order in which directories
list their entries.

* `Disk.Reaches`: steps lead from one directory to another.
* `Disk.find_isFolder_iff`: what it takes that a path leads to a directory.
* `Disk.isFolderAt_join`: what it takes that the path of an entry does.
* `Disk.Lawful`: the names in a directory are different, and each is one that an entry can have.
* `Disk.Reordered`: another order of the entries of directories.
-/

namespace Relabel

/-! ## Names of entries -/

/-- A name that a file system gives an entry. -/
structure EntryName (n : FileName) : Prop extends Disk.Nameable n where
  ne_nil : n ≠ []
  slash_notMem : Path.slash ∉ n
  zero_notMem : 0 ∉ n

theorem entryName_iff : EntryName n ↔
    (n ≠ .dot ∧ n ≠ .dotDot ∧ n.length ≤ Disk.maxName) ∧ n ≠ [] ∧ Path.slash ∉ n ∧ 0 ∉ n :=
  ⟨fun ⟨⟨hdot, hdotDot, hlength⟩, hne, hslash, hzero⟩ =>
      ⟨⟨hdot, hdotDot, hlength⟩, hne, hslash, hzero⟩,
    fun ⟨⟨hdot, hdotDot, hlength⟩, hne, hslash, hzero⟩ =>
      ⟨⟨hdot, hdotDot, hlength⟩, hne, hslash, hzero⟩⟩

instance (n : FileName) : Decidable (EntryName n) := decidable_of_iff _ entryName_iff.symm

/-- A directory gives no two entries one name. -/
structure Entries.Lawful (es : Entries) : Prop where
  nodup : (es.map Prod.fst).Nodup
  names : ∀ n ∈ es.map Prod.fst, EntryName n

instance (es : Entries) : Decidable es.Lawful :=
  decidable_of_iff ((es.map Prod.fst).Nodup ∧ ∀ n ∈ es.map Prod.fst, EntryName n)
    ⟨fun ⟨hnodup, hnames⟩ => ⟨hnodup, hnames⟩, fun ⟨hnodup, hnames⟩ => ⟨hnodup, hnames⟩⟩

/-! ## Paths -/

namespace Path

variable {p : Path} {n : FileName}

theorem steps_eq (p : Path) : p.steps = (cut p.bytes).filter (! ·.isEmpty) := by
  unfold steps segments
  split
  · next ha =>
    obtain ⟨bytes⟩ := p
    obtain ⟨rest, rfl⟩ := List.head?_eq_some_iff.mp (eq_of_beq ha)
    rfl
  · rfl

theorem steps_join (hp : p.isEmpty = false) (hne : n ≠ []) (hslash : slash ∉ n) :
    (p.join ⟨n⟩).steps = p.steps ++ [n] := by
  have hn : [n].filter (! ·.isEmpty) = [n] := by simp [hne]
  have hcut := cut_of_slash_notMem hslash
  rw [join, isAbsolute_of_slash_notMem hslash, if_neg Bool.false_ne_true, hp, Bool.false_or]
  split
  · next hend =>
    -- The slash at the end of the path is the one in front of the name.
    obtain ⟨front, hfront⟩ := List.getLast?_eq_some_iff.mp (eq_of_beq hend)
    rw [steps_eq, steps_eq, hfront, List.append_assoc, List.singleton_append, cut_append_slash,
      cut_append_slash, hcut, List.filter_append, List.filter_append, hn]
    exact congrArg (· ++ [n]) (List.append_nil _).symm
  · rw [steps_eq, steps_eq, cut_append_slash, hcut, List.filter_append, hn]

theorem bytes_join (hslash : slash ∉ n) :
    ∃ between, (p.join ⟨n⟩).bytes = p.bytes ++ between ++ n ∧ ∀ b ∈ between, b = slash := by
  rw [join, isAbsolute_of_slash_notMem hslash, if_neg Bool.false_ne_true]
  split
  · exact ⟨[], by rw [List.append_nil], List.forall_mem_nil _⟩
  · exact ⟨[slash], by simp, fun b hb => List.mem_singleton.mp hb⟩

theorem isAbsolute_join (hp : p.isEmpty = false) (hslash : slash ∉ n) :
    (p.join ⟨n⟩).isAbsolute = p.isAbsolute := by
  obtain ⟨between, hbytes, -⟩ := bytes_join (p := p) hslash
  rw [isAbsolute, hbytes, List.append_assoc,
    List.head?_append_of_ne_nil _ (List.isEmpty_eq_false_iff.mp hp)]
  rfl

end Path

namespace Disk

/-! ## Steps to a directory -/

/-- Steps lead from one directory to another, and so many links are on the way. -/
inductive Reaches (d : Disk) : (dir : Nat) → List FileName → (links : Nat) → (i : Nat) → Prop
  | here {i} : d.isFolder i = true → d.Reaches i [] 0 i
  | dot {dir rest m i} : d.isFolder dir = true → d.Reaches dir rest m i →
    d.Reaches dir (.dot :: rest) m i
  | dotDot {dir up rest m i} : d.up? dir = some up → d.Reaches up rest m i →
    d.Reaches dir (.dotDot :: rest) m i
  | through {dir n j rest m i} : Nameable n → d.nodeAt ⟨dir, n⟩ = some j → d.isFolder j = true →
    d.Reaches j rest m i → d.Reaches dir (n :: rest) m i
  | link {dir n j target rest m i} : Nameable n → d.nodeAt ⟨dir, n⟩ = some j →
    d.node? j = some (.link target) →
    d.Reaches (if target.isAbsolute then root else dir) (target.steps ++ rest) m i →
    d.Reaches dir (n :: rest) (m + 1) i

variable {d d' : Disk} {p : Path} {n : FileName} {ns ms rest : List FileName} {slash : Bool}
  {dir i j k m : Nat}

theorem isFolder_of_up? (h : d.up? i = some j) : d.isFolder i = true := by
  unfold up? at h
  split at h
  · next hn =>
    rw [isFolder, hn]
    rfl
  · cases h

theorem isFolder_of_node? {up : Nat} {es : Entries} (h : d.node? i = some (.folder up es)) :
    d.isFolder i = true := by
  rw [isFolder, h]
  rfl

theorem not_isFolder_of_link {target : Path} (h : d.node? i = some (.link target)) :
    d.isFolder i ≠ true := by
  rw [isFolder, h]
  exact Bool.false_ne_true

namespace Reaches

theorem isFolder_right (h : d.Reaches dir ns m i) : d.isFolder i = true := by
  induction h with
  | here hi => exact hi
  | dot _ _ ih | dotDot _ _ ih | through _ _ _ _ ih | link _ _ _ _ ih => exact ih

end Reaches

theorem reaches_dot_iff :
    d.Reaches dir (.dot :: rest) m i ↔ d.isFolder dir = true ∧ d.Reaches dir rest m i := by
  refine ⟨fun h => ?_, fun ⟨hdir, h⟩ => .dot hdir h⟩
  cases h with
  | dot hdir h => exact ⟨hdir, h⟩
  | through hn | link hn => exact absurd rfl hn.ne_dot

theorem reaches_dotDot_iff :
    d.Reaches dir (.dotDot :: rest) m i ↔ ∃ up, d.up? dir = some up ∧ d.Reaches up rest m i := by
  refine ⟨fun h => ?_, fun ⟨up, hup, h⟩ => .dotDot hup h⟩
  cases h with
  | dotDot hup h => exact ⟨_, hup, h⟩
  | through hn | link hn => exact absurd rfl hn.ne_dotDot

theorem reaches_through_iff (hn : Nameable n) (hj : d.nodeAt ⟨dir, n⟩ = some j)
    (hf : d.isFolder j = true) : d.Reaches dir (n :: rest) m i ↔ d.Reaches j rest m i := by
  refine ⟨fun h => ?_, .through hn hj hf⟩
  cases h with
  | dot => exact absurd rfl hn.ne_dot
  | dotDot => exact absurd rfl hn.ne_dotDot
  | through _ hj' _ h =>
    cases hj.symm.trans hj'
    exact h
  | link _ hj' ht _ =>
    cases hj.symm.trans hj'
    exact absurd hf (not_isFolder_of_link ht)

theorem reaches_link_iff {target : Path} (hn : Nameable n) (hj : d.nodeAt ⟨dir, n⟩ = some j)
    (ht : d.node? j = some (.link target)) : d.Reaches dir (n :: rest) m i ↔ ∃ k, m = k + 1 ∧
      d.Reaches (if target.isAbsolute then root else dir) (target.steps ++ rest) k i := by
  refine ⟨fun h => ?_, fun ⟨k, hk, h⟩ => hk ▸ .link hn hj ht h⟩
  cases h with
  | dot => exact absurd rfl hn.ne_dot
  | dotDot => exact absurd rfl hn.ne_dotDot
  | through _ hj' hf _ =>
    cases hj.symm.trans hj'
    exact absurd hf (not_isFolder_of_link ht)
  | link _ hj' ht' h =>
    cases hj.symm.trans hj'
    cases ht.symm.trans ht'
    exact ⟨_, rfl, h⟩

/-- What is reached from a directory is what is reached along a way through it. -/
theorem Reaches.append_iff (h : d.Reaches dir ns k i) :
    d.Reaches dir (ns ++ ms) m j ↔ ∃ l, m = k + l ∧ d.Reaches i ms l j := by
  induction h generalizing m with
  | here => simp
  | dot hdir _ ih => rw [List.cons_append, reaches_dot_iff, ih, and_iff_right hdir]
  | dotDot hup _ ih => simp [reaches_dotDot_iff, hup, ih]
  | through hn hj hf _ ih => rw [List.cons_append, reaches_through_iff hn hj hf, ih]
  | link hn hj ht _ ih =>
    simp only [List.cons_append, reaches_link_iff hn hj ht, ← List.append_assoc, ih]
    constructor
    · rintro ⟨_, rfl, l, rfl, h⟩
      exact ⟨l, by omega, h⟩
    · rintro ⟨l, rfl, h⟩
      exact ⟨_, by omega, l, rfl, h⟩

/-! ## Walks to a directory -/

/-- How a walk goes on behind a link if it may follow so many. -/
def jump (d : Disk) (follow : Bool) : (links : Nat) → Nat → List FileName → Bool →
    Except Fault Place
  | 0 => fun _ _ _ => .error .tooManyLinks
  | k + 1 => d.walk follow k

theorem walk_eq_walkWith (d : Disk) (follow : Bool) (k : Nat) :
    d.walk follow k = d.walkWith (d.jump follow k) follow := by
  cases k <;> rfl

/-- The node that a walk ends in. -/
def Place.node? : Place → Option Nat
  | .folder i => some i
  | .entry _ _ i _ => i

/-- The first link on a walk leads on as a jump does, and takes one of the links that may be
followed. -/
theorem reaches_of_walkWith {jump : Nat → List FileName → Bool → Except Fault Place} {r : Place}
    (hjump : ∀ dir ns slash r, jump dir ns slash = .ok r → r.node? = some i →
      ∃ m < k, d.Reaches dir ns m i)
    (h : d.walkWith jump true dir ns slash = .ok r) (hr : r.node? = some i)
    (hi : d.isFolder i = true) : ∃ m ≤ k, d.Reaches dir ns m i := by
  induction ns generalizing dir with
  | nil =>
    cases h
    cases hr
    exact ⟨0, Nat.zero_le k, .here hi⟩
  | cons n rest ih =>
    rw [walkWith] at h
    split at h
    · next up es hdir =>
      have hfolder := isFolder_of_node? hdir
      split at h
      · next hn =>
        obtain ⟨m, hm, h⟩ := ih h
        exact ⟨m, hm, hn ▸ .dot hfolder h⟩
      next hdot =>
      split at h
      · next hn =>
        obtain ⟨m, hm, h⟩ := ih h
        have hup : d.up? dir = some up := by rw [up?, hdir]
        exact ⟨m, hm, hn ▸ .dotDot hup h⟩
      next hdotDot =>
      split at h
      · cases h
      next hmax =>
      have hn : Nameable n := ⟨hdot, hdotDot, Nat.le_of_not_lt hmax⟩
      split at h
      · split at h
        · cases h
          cases hr
        · cases h
      next j hget =>
      have hj : d.nodeAt ⟨dir, n⟩ = some j := by rw [nodeAt, entries, hdir]; exact hget
      split at h
      · next target ht =>
        rw [Bool.true_or, Bool.not_true, Bool.and_false, if_neg Bool.false_ne_true] at h
        obtain ⟨m, hm, h⟩ := hjump _ _ _ _ h hr
        exact ⟨m + 1, hm, .link hn hj ht h⟩
      · next hnode =>
        have hf := isFolder_of_node? hnode
        split at h
        · next hrest =>
          cases h
          cases hr
          rw [List.isEmpty_iff.mp hrest]
          exact ⟨0, Nat.zero_le k, .through hn hj hf (.here hf)⟩
        · obtain ⟨m, hm, h⟩ := ih h
          exact ⟨m, hm, .through hn hj hf h⟩
      · next hnode =>
        split at h
        · next hrest =>
          cases h
          cases hr
          obtain ⟨up', es', hf⟩ := node?_of_isFolder hi
          exact absurd hf (hnode up' es')
        · cases h
    · cases h

/-- A walk that ends in a directory has led there along its steps. -/
theorem reaches_of_walk {r : Place} (h : d.walk true k dir ns slash = .ok r)
    (hr : r.node? = some i) (hi : d.isFolder i = true) : ∃ m ≤ k, d.Reaches dir ns m i := by
  induction k generalizing dir ns slash r with
  | zero => exact reaches_of_walkWith (fun _ _ _ _ h => by cases h) h hr hi
  | succ k ih =>
    refine reaches_of_walkWith (fun dir ns slash r h hr => ?_) h hr hi
    obtain ⟨m, hm, h⟩ := ih h hr
    exact ⟨m, Nat.lt_succ_of_le hm, h⟩

/-- A walk that may follow all links on the way leads where the steps do. -/
theorem Reaches.walk (h : d.Reaches dir ns m i) (hm : m ≤ k) (slash : Bool) :
    ∃ r, d.walk true k dir ns slash = .ok r ∧ r.node? = some i := by
  induction h generalizing k slash with
  | here =>
    rw [walk_eq_walkWith]
    exact ⟨_, rfl, rfl⟩
  | dot hdir _ ih =>
    obtain ⟨up, es, hdir⟩ := node?_of_isFolder hdir
    obtain ⟨r, h, hr⟩ := ih hm slash
    refine ⟨r, ?_, hr⟩
    rw [walk_eq_walkWith] at h ⊢
    simp only [walkWith, hdir, if_true, h]
  | @dotDot dir up rest m i hup _ ih =>
    obtain ⟨r, h, hr⟩ := ih hm slash
    refine ⟨r, ?_, hr⟩
    obtain ⟨up', es, hdir⟩ := node?_of_isFolder (isFolder_of_up? hup)
    rw [up?, hdir] at hup
    cases hup
    rw [walk_eq_walkWith] at h ⊢
    rw [walkWith, hdir]
    simp only [if_neg (by decide : FileName.dotDot ≠ .dot), if_true, h]
  | @through dir n j rest m i hn hj hf h ih =>
    obtain ⟨up, es, hdir⟩ := node?_of_isFolder (isFolder_of_nodeAt hj)
    obtain ⟨up', es', hnode⟩ := node?_of_isFolder hf
    rw [nodeAt, entries, hdir] at hj
    rw [walk_eq_walkWith, walkWith, hdir]
    simp only [if_neg hn.ne_dot, if_neg hn.ne_dotDot, if_neg (Nat.not_lt_of_le hn.length_le), hj,
      hnode]
    rw [← walk_eq_walkWith]
    split
    · next hrest =>
      rw [List.isEmpty_iff.mp hrest] at h
      cases h
      exact ⟨_, rfl, rfl⟩
    · exact ih hm slash
  | @link dir n j target rest m i hn hj ht _ ih =>
    obtain ⟨up, es, hdir⟩ := node?_of_isFolder (isFolder_of_nodeAt hj)
    rw [nodeAt, entries, hdir] at hj
    obtain ⟨k, rfl⟩ : ∃ l, k = l + 1 := ⟨k - 1, by omega⟩
    rw [walk_eq_walkWith, walkWith, hdir]
    simp only [if_neg hn.ne_dot, if_neg hn.ne_dotDot, if_neg (Nat.not_lt_of_le hn.length_le), hj,
      ht, Bool.true_or, Bool.not_true, Bool.and_false, if_neg Bool.false_ne_true]
    exact ih (Nat.le_of_succ_le_succ hm) _

/-! ## Paths to a directory -/

/-- The directory that a path starts from. -/
def start (d : Disk) (p : Path) : Nat := if p.isAbsolute then root else d.current

/-- What is found is at the place of the path. -/
theorem place_of_find (h : d.find true p = .ok i) :
    ∃ r, d.place true p p.endsInSlash = .ok r ∧ r.node? = some i := by
  unfold find at h
  cases hp : d.place true p p.endsInSlash with
  | error e => rw [hp] at h; cases h
  | ok r =>
    rw [hp] at h
    simp only [bind, Except.bind] at h
    split at h
    · cases h
      exact ⟨_, rfl, rfl⟩
    · cases h
    · split at h
      · cases h
      · cases h
        exact ⟨_, rfl, rfl⟩

/-- A directory is found whether or not the path ends in a slash. -/
theorem find_of_place {r : Place} (h : d.place true p p.endsInSlash = .ok r)
    (hr : r.node? = some i) (hi : d.isFolder i = true) : d.find true p = .ok i := by
  rw [find, h]
  cases r with
  | folder =>
    cases hr
    rfl
  | entry dir name o slash =>
    cases (show o = some i from hr)
    simp [bind, Except.bind, hi]

/-- A path leads to a directory along its steps, if there are not too many links on the way. -/
theorem find_isFolder_iff : d.find true p = .ok i ∧ d.isFolder i = true ↔
    checkPath p = .ok () ∧ ∃ m ≤ maxLinks, d.Reaches (d.start p) p.steps m i := by
  constructor
  · rintro ⟨h, hi⟩
    obtain ⟨r, hp, hr⟩ := place_of_find h
    obtain ⟨hcheck, hw⟩ := place_eq_ok.mp hp
    exact ⟨hcheck, reaches_of_walk hw hr hi⟩
  · rintro ⟨hcheck, m, hm, h⟩
    obtain ⟨r, hw, hr⟩ := h.walk hm p.endsInSlash
    exact ⟨find_of_place (place_eq_ok.mpr ⟨hcheck, hw⟩) hr h.isFolder_right, h.isFolder_right⟩

theorem isFolderAt_iff : d.isFolderAt p = true ↔
    checkPath p = .ok () ∧ ∃ m ≤ maxLinks, ∃ i, d.Reaches (d.start p) p.steps m i := by
  have hfind : d.isFolderAt p = true ↔ ∃ i, d.find true p = .ok i ∧ d.isFolder i = true := by
    unfold isFolderAt
    cases d.find true p <;> simp
  simp only [hfind, find_isFolder_iff]
  constructor
  · rintro ⟨i, hcheck, m, hm, h⟩
    exact ⟨hcheck, m, hm, i, h⟩
  · rintro ⟨hcheck, m, hm, i, h⟩
    exact ⟨i, hcheck, m, hm, h⟩

/-! ## Paths of entries -/

/-- A path can be looked up if it is not empty, has no byte 0 and is short enough. -/
theorem checkPath_eq_ok : checkPath p = .ok () ↔
    0 ∉ p.bytes ∧ p.isEmpty = false ∧ p.bytes.length ≤ maxPath := by
  unfold checkPath
  split
  · next h => simpa using fun h' => absurd (List.contains_iff_mem.mp h) h'
  next hzero =>
  have hzero : 0 ∉ p.bytes := fun h => hzero (List.contains_iff_mem.mpr h)
  split
  · next h => simp [h]
  next hne =>
  split
  · next h => simpa using fun _ _ => h
  · next h => simpa [hzero, hne] using h

/-- The path of an entry is too long, or it is none at all if that of the directory is none. -/
theorem checkPath_join (hn : EntryName n) (hp : checkPath p = .ok ()) :
    checkPath (p.join ⟨n⟩) = .ok () ↔ (p.join ⟨n⟩).bytes.length ≤ maxPath := by
  obtain ⟨hzero, hne, -⟩ := checkPath_eq_ok.mp hp
  obtain ⟨between, hbytes, hbetween⟩ := Path.bytes_join (p := p) hn.slash_notMem
  have hzero' : 0 ∉ (p.join ⟨n⟩).bytes := by
    rw [hbytes, List.mem_append, List.mem_append]
    rintro ((h | h) | h)
    · exact hzero h
    · cases hbetween 0 h
    · exact hn.zero_notMem h
  have hne' : (p.join ⟨n⟩).isEmpty = false := by
    rw [Path.isEmpty, hbytes]
    simp [hn.ne_nil]
  rw [checkPath_eq_ok, and_iff_right hzero', and_iff_right hne']

/-- The path of an entry leads to a directory if it is not too long and the entry does, not too many
links being followed, those on the way to the directory included. -/
theorem isFolderAt_join (hn : EntryName n) (hp : checkPath p = .ok ())
    (hi : d.Reaches (d.start p) p.steps k i) : d.isFolderAt (p.join ⟨n⟩) = true ↔
      (p.join ⟨n⟩).bytes.length ≤ maxPath ∧ ∃ m j, k + m ≤ maxLinks ∧ d.Reaches i [n] m j := by
  have hne := (checkPath_eq_ok.mp hp).2.1
  have hstart : d.start (p.join ⟨n⟩) = d.start p := by
    rw [start, Path.isAbsolute_join hne hn.slash_notMem, start]
  rw [isFolderAt_iff, checkPath_join hn hp, hstart, Path.steps_join hne hn.ne_nil hn.slash_notMem]
  simp only [hi.append_iff]
  refine and_congr_right fun _ => ⟨?_, ?_⟩
  · rintro ⟨_, hm, j, m, rfl, h⟩
    exact ⟨m, j, hm, h⟩
  · rintro ⟨m, j, hm, h⟩
    exact ⟨k + m, hm, j, m, rfl, h⟩

end Disk
end Relabel
