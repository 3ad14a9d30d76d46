import Relabel.Item.Scan
import Relabel.Proofs.Disk.Order
import Relabel.Proofs.Item.Renaming

/-!
# The items of a directory

A scan shows every entry whose name is text and does not begin with a dot, in byte order of the
names, whatever the order in which the directory lists them. The kind of an item is read off its
path: it is a folder if the entry is a directory or a link that leads to one, but only as long as
the path is one that the system takes.

* `Item.Shown`: the names of the entries that are shown.
* `Item.Shows`: what the item of an entry says.
* `Item.scan_complete`: what a scan comes to.
-/

namespace Relabel

/-! ## Text -/

namespace Utf8

variable {bytes : List UInt8} {s : String}

theorem text?_eq_some_iff : text? bytes = some s ↔ encode s = bytes := by
  refine ⟨fun h => ?_, fun h => h ▸ text?_encode s⟩
  unfold text? String.fromUTF8? at h
  split at h
  · cases h
    rw [encode, ByteArray.toList, toList_loop_eq]
    rfl
  · cases h

theorem isSome_text?_iff : (text? bytes).isSome = true ↔ ∃ s, encode s = bytes := by
  simp only [Option.isSome_iff_exists, text?_eq_some_iff]

theorem head?_encode_eq_dot : (encode s).head? = some 0x2E ↔ s.toList.head? = some '.' := by
  rw [encode_eq]
  cases s.toList with
  | nil => simp
  | cons c cs =>
    have hne : String.utf8EncodeChar c ≠ [] := by
      unfold String.utf8EncodeChar
      dsimp only
      split_ifs <;> exact List.cons_ne_nil _ _
    rw [List.flatMap_cons, List.head?_append_of_ne_nil _ hne]
    constructor
    · intro h
      exact congrArg some (eq_of_mem_utf8EncodeChar (a := '.') (by decide) (List.mem_of_head? h))
    · rintro ⟨⟩
      rfl

end Utf8

/-! ## Byte order -/

namespace FileName

theorem le_iff (a b : FileName) : a.le b = true ↔ a ≤ b := by
  induction a generalizing b with
  | nil => simp [le]
  | cons x a ih =>
    cases b with
    | nil => simp [le]
    | cons y b => simp [le, List.cons_le_cons_iff, ih]

theorem pairwise_mergeSort (ns : List FileName) : (ns.mergeSort le).Pairwise (· ≤ ·) := by
  refine (List.pairwise_mergeSort (fun a b c hab hbc => ?_) (fun a b => ?_) ns).imp
    fun {a b} => (le_iff a b).mp
  · rw [le_iff] at hab hbc ⊢
    exact List.le_trans hab hbc
  · rw [Bool.or_eq_true, le_iff, le_iff]
    exact List.le_total a b

end FileName

namespace Item

variable {d : Disk} {w w' : World} {p : Path} {n : FileName} {ns ns' : List FileName}
  {es : Entries} {i k : Nat}

/-! ## Visible names -/

theorem mem_visibleNames : n ∈ visibleNames ns ↔ n ∈ ns ∧ isHidden n = false := by
  rw [visibleNames, (List.mergeSort_perm _ _).mem_iff, List.mem_filter, Bool.not_eq_true']

theorem nodup_visibleNames (h : ns.Nodup) : (visibleNames ns).Nodup :=
  (List.mergeSort_perm _ _).nodup_iff.mpr (h.filter _)

/-- The order in which a directory lists its entries does not matter. -/
theorem visibleNames_eq_of_perm (h : ns.Perm ns') : visibleNames ns' = visibleNames ns := by
  have hp : (visibleNames ns').Perm (visibleNames ns) :=
    (List.mergeSort_perm _ _).trans ((h.symm.filter _).trans (List.mergeSort_perm _ _).symm)
  exact hp.eq_of_pairwise (fun _ _ _ _ hab hba => List.le_antisymm hab hba)
    (FileName.pairwise_mergeSort _) (FileName.pairwise_mergeSort _)

/-- The names of the entries that are shown: each one that is a text and does not begin with a dot,
once and in byte order. -/
structure Shown (es : Entries) (names : List FileName) : Prop where
  mem : ∀ n, n ∈ names ↔ n ∈ es.map Prod.fst ∧
    ∃ text, Utf8.encode text = n ∧ text.toList.head? ≠ some '.'
  ascending : names.Pairwise (· < ·)

/-- The visible names that are text. -/
def shownNames (ns : List FileName) : List FileName :=
  (visibleNames ns).filter fun n => (Utf8.text? n).isSome

theorem shown_shownNames (h : (es.map Prod.fst).Nodup) :
    Shown es (shownNames (es.map Prod.fst)) where
  mem n := by
    rw [shownNames, List.mem_filter, mem_visibleNames, Utf8.isSome_text?_iff, and_assoc]
    refine and_congr_right fun _ => ?_
    have hhidden (text : String) : isHidden (Utf8.encode text) = false ↔
        text.toList.head? ≠ some '.' := by
      rw [isHidden, beq_eq_false_iff_ne, ne_eq, Utf8.head?_encode_eq_dot]
    constructor
    · rintro ⟨hn, text, rfl⟩
      exact ⟨text, rfl, (hhidden text).mp hn⟩
    · rintro ⟨text, rfl, hn⟩
      exact ⟨(hhidden text).mpr hn, text, rfl⟩
  ascending := by
    have hsorted := FileName.pairwise_mergeSort ((es.map Prod.fst).filter fun n => !isHidden n)
    have hlt := (hsorted.and (nodup_visibleNames h)).imp fun {a b} ⟨hle, hne⟩ =>
      List.not_le.mp fun hge => hne (List.le_antisymm hle hge)
    exact hlt.filter _

/-! ## Items at paths -/

/-- The item of the entry `n` of the directory at `p`. -/
def ofEntry (d : Disk) (p : Path) (n : FileName) : Item :=
  .onDisk (p.join ⟨n⟩) (if d.isFolderAt (p.join ⟨n⟩) then .folder else .clip)

/-- The entries of a directory whose names are text give items; nothing else happens than that some
are told of. -/
theorem on_ofPaths (h : ∀ n ∈ ns, EntryName n) (w : World) : ∃ told,
    Deed.on (ofPaths (ns.map fun n => p.join ⟨n⟩)) w =
      ((ns.filter fun n => (Utf8.text? n).isSome).map (ofEntry w.disk p),
        { w with journal := w.journal ++ told }) := by
  induction ns generalizing w with
  | nil => exact ⟨[], by simp [ofPaths]⟩
  | cons n ns ih =>
    obtain ⟨hn, hns⟩ := List.forall_mem_cons.mp h
    have hname : (p.join ⟨n⟩).fileName? = some n :=
      p.fileName?_join hn.slash_notMem hn.ne_nil hn.ne_dot hn.ne_dotDot
    rw [List.map_cons, ofPaths, Deed.on_bind, Act.on_run]
    cases ht : Utf8.text? n with
    | none =>
      have herror : ∃ e, Act.on (ofPath (p.join ⟨n⟩)) w = (.error e, w) := by
        unfold ofPath
        rw [hname]
        dsimp only
        rw [ht]
        exact ⟨_, rfl⟩
      obtain ⟨e, herror⟩ := herror
      obtain ⟨told, ih⟩ := ih hns w
      refine ⟨told, ?_⟩
      rw [herror, List.filter_cons_of_neg (by simp [ht])]
      exact ih
    | some name =>
      rw [on_ofPath hname ht]
      obtain ⟨told, ih⟩ := ih hns
        { w with journal := w.journal ++ [.record .debug s!"Selected {name}"] }
      refine ⟨.record .debug s!"Selected {name}" :: told, ?_⟩
      rw [List.filter_cons_of_pos (by simp [ht]), List.map_cons,
        List.append_cons w.journal _ told]
      dsimp only
      rw [Deed.on_bind, ih, Deed.on_pure]
      rfl

theorem listFolder_of_find (hp : d.find true p = .ok i) (hi : d.isFolder i = true) :
    d.listFolder p = .ok ((d.entries i).map Prod.fst) := by
  obtain ⟨up, es, hnode⟩ := Disk.node?_of_isFolder hi
  rw [Disk.listFolder, hp, Disk.entries, hnode]
  simp [bind, Except.bind, hnode]

/-- A directory that is scanned gives an item for each name that is shown. -/
theorem on_scan (hp : w.disk.find true p = .ok i) (hi : w.disk.isFolder i = true)
    (h : (w.disk.entries i).Lawful) : ∃ told, Act.on (scan p) w =
      (.ok ((shownNames ((w.disk.entries i).map Prod.fst)).map (ofEntry w.disk p)),
        { w with journal := w.journal ++ told }) := by
  have hvisible : ∀ n ∈ visibleNames ((w.disk.entries i).map Prod.fst), EntryName n :=
    fun n hn => h.names n (mem_visibleNames.mp hn).1
  obtain ⟨told, hitems⟩ := on_ofPaths (p := p) hvisible
    { w with journal := w.journal ++ [.record .debug s!"Scanning directory: {p}"] }
  let items := (shownNames ((w.disk.entries i).map Prod.fst)).map (ofEntry w.disk p)
  refine ⟨[.record .debug s!"Scanning directory: {p}"] ++ told ++
    [.record .debug s!"Found {items.length} entries in directory"], ?_⟩
  rw [← List.append_assoc, ← List.append_assoc]
  unfold scan
  rw [Act.on_bind, Act.on_lift, World.on_debug]
  dsimp only
  rw [Act.on_bind, Act.on_lift, World.on_getDisk]
  dsimp only
  rw [listFolder_of_find hp hi]
  dsimp only
  rw [Act.on_bind, Act.on_lift, hitems]
  rfl

/-! ## Items of a directory -/

/-- What the item of the entry `n` says, which stands in the directory `i` at the path `p`, with so
many links on the way: the path and the name of the entry, and whether it is a directory or a link
that leads to one. A path that is too long does not say so, nor one with too many links. -/
structure Shows (d : Disk) (p : Path) (links i : Nat) (n : FileName) (item : Item) : Prop where
  path : item = .onDisk (p.join ⟨n⟩) item.kind
  name : Utf8.encode item.name = n
  kind : item.kind = .folder ∨ item.kind = .clip
  folder : item.kind = .folder ↔ (p.join ⟨n⟩).bytes.length ≤ Disk.maxPath ∧
    ∃ m j, links + m ≤ Disk.maxLinks ∧ d.Reaches i [n] m j

/-- An item says of an entry what there is to say. -/
theorem shows_ofEntry (hn : EntryName n) (htext : ∃ text, Utf8.encode text = n)
    (hp : Disk.checkPath p = .ok ()) (hi : d.Reaches (d.start p) p.steps k i) :
    Shows d p k i n (ofEntry d p n) where
  path := rfl
  name := by
    obtain ⟨text, rfl⟩ := htext
    rw [ofEntry, Item.name, p.fileName?_join hn.slash_notMem hn.ne_nil hn.ne_dot hn.ne_dotDot]
    exact congrArg Utf8.encode (Utf8.lossy_encode text)
  kind := by
    unfold ofEntry Item.kind
    dsimp only
    split
    · exact .inl rfl
    · exact .inr rfl
  folder := by
    rw [← Disk.isFolderAt_join hn hp hi]
    unfold ofEntry Item.kind
    cases d.isFolderAt (p.join ⟨n⟩) <;> simp

/-- A scan of a directory shows all entries whose names are text and do not begin with a dot, in
byte order of the names, and leaves the others out without failing. It does not matter in which
order the directories of the file system list their entries. -/
theorem scan_complete (hlawful : w.disk.Lawful) (hp : w.disk.find true p = .ok i)
    (hi : w.disk.isFolder i = true) (hw : w.disk.Reordered w'.disk) :
    ∃ links names items, links ≤ Disk.maxLinks ∧
      w.disk.Reaches (w.disk.start p) p.steps links i ∧
      Shown (w.disk.entries i) names ∧
      List.Forall₂ (Shows w.disk p links i) names items ∧
      (Act.on (scan p) w).1 = .ok items ∧ (Act.on (scan p) w').1 = .ok items := by
  obtain ⟨hcheck, links, hlinks, hreaches⟩ := Disk.find_isFolder_iff.mp ⟨hp, hi⟩
  obtain ⟨hp', hi'⟩ := (hw.find_isFolder hlawful).mpr ⟨hp, hi⟩
  let names := shownNames ((w.disk.entries i).map Prod.fst)
  have hshown : Shown (w.disk.entries i) names :=
    shown_shownNames (hlawful.entries i).nodup
  have hshows : ∀ n ∈ names, Shows w.disk p links i n (ofEntry w.disk p n) := by
    intro n hn
    obtain ⟨hmem, text, htext, -⟩ := (hshown.mem n).mp hn
    exact shows_ofEntry ((hlawful.entries i).names n hmem) ⟨text, htext⟩ hcheck hreaches
  have hnames : shownNames ((w'.disk.entries i).map Prod.fst) = names := by
    rw [shownNames, visibleNames_eq_of_perm ((hw.entries i).map Prod.fst)]
    rfl
  have hentry : ofEntry w'.disk p = ofEntry w.disk p :=
    funext fun n => by rw [ofEntry, hw.isFolderAt_eq hlawful, ofEntry]
  refine ⟨links, names, names.map (ofEntry w.disk p), hlinks, hreaches, hshown,
    List.forall₂_map_right_iff.mpr (List.forall₂_same.mpr hshows), ?_, ?_⟩
  · obtain ⟨told, h⟩ := on_scan hp hi (hlawful.entries i)
    rw [h]
  · obtain ⟨told, h⟩ := on_scan hp' hi' ((hw.lawful hlawful).entries i)
    rw [h, hnames, hentry]

/-- A directory that lists a file, a hidden file, a name that is no text, a link to a directory, the
directory and a link that leads nowhere. -/
def mixedDisk : Disk where
  nodes := [.folder 0 [(Utf8.encode "d", 1)],
    .folder 0 [(Utf8.encode "b.exr", 2), (Utf8.encode ".x", 2), ([0xFF], 2), (Utf8.encode "l", 3),
      (Utf8.encode "a", 4), (Utf8.encode "m", 5)],
    .file [], .link (.ofString "a"), .folder 1 [], .link (.ofString "gone")]
  current := 0

/-- The same, listed in another order. -/
def turnedDisk : Disk where
  nodes := [.folder 0 [(Utf8.encode "d", 1)],
    .folder 0 [(Utf8.encode "m", 5), (Utf8.encode "a", 4), (Utf8.encode "l", 3), ([0xFF], 2),
      (Utf8.encode ".x", 2), (Utf8.encode "b.exr", 2)],
    .file [], .link (.ofString "a"), .folder 1 [], .link (.ofString "gone")]
  current := 0

theorem scan_complete_mixed :
    let d := mixedDisk
    let p := Path.ofString "d"
    d.Lawful ∧ d.Reordered turnedDisk ∧ d.find true p = .ok 1 ∧ d.isFolder 1 = true ∧
      ∃ links names items, links ≤ Disk.maxLinks ∧ d.Reaches (d.start p) p.steps links 1 ∧
        Shown (d.entries 1) names ∧ List.Forall₂ (Shows d p links 1) names items ∧
        (Act.on (scan p) (bareWorld d)).1 = .ok items ∧
        (Act.on (scan p) (bareWorld turnedDisk)).1 = .ok items := by
  intro d p
  have hlawful : d.Lawful := by decide +kernel
  have hturned : (bareWorld d).disk.Reordered (bareWorld turnedDisk).disk :=
    ⟨rfl, .cons (.folder 0 (.refl _)) (.cons (.folder 0 (by decide +kernel)) (.cons (.file [])
      (.cons (.link _) (.cons (.folder 1 .nil) (.cons (.link _) .nil)))))⟩
  have hp : d.find true p = .ok 1 := by decide +kernel
  have hi : d.isFolder 1 = true := by decide +kernel
  exact ⟨hlawful, hturned, hp, hi, scan_complete hlawful hp hi hturned⟩

/-- The current directory, written with so many dots that no path of an entry is short enough. -/
def dottedPath : Path := .ofSegments false (List.replicate 2041 .dot)

/-- A directory in a directory. -/
def plainDisk : Disk where
  nodes := [.folder 0 [(Utf8.encode "a_directory_of_shots", 1)], .folder 0 []]
  current := 0

/-- The directory can be read, but the path of what it holds cannot be looked at. -/
theorem scan_takes_directory_for_clip :
    let n := Utf8.encode "a_directory_of_shots"
    plainDisk.Lawful ∧ plainDisk.find true dottedPath = .ok 0 ∧ plainDisk.Reaches 0 [n] 0 1 ∧
      (Act.on (scan dottedPath) (bareWorld plainDisk)).1 =
        .ok [.onDisk (dottedPath.join ⟨n⟩) .clip] := by
  intro n
  have hlawful : plainDisk.Lawful := by decide +kernel
  have hp : plainDisk.find true dottedPath = .ok 0 := by decide +kernel
  have hn : EntryName n := by decide +kernel
  have hfolder : plainDisk.isFolder 1 = true := by decide +kernel
  have hshown : shownNames ((plainDisk.entries 0).map Prod.fst) = [n] := by decide +kernel
  have hclip : plainDisk.isFolderAt (dottedPath.join ⟨n⟩) = false := by decide +kernel
  obtain ⟨told, h⟩ := on_scan (w := bareWorld plainDisk) hp (by decide +kernel)
    (hlawful.entries 0)
  refine ⟨hlawful, hp, .through hn.toNameable (by decide +kernel) hfolder (.here hfolder), ?_⟩
  rw [h]
  have hitem : ofEntry plainDisk dottedPath n = .onDisk (dottedPath.join ⟨n⟩) .clip := by
    rw [ofEntry, hclip]
    rfl
  exact congrArg Except.ok ((congrArg (List.map _) hshown).trans (congrArg (fun i => [i]) hitem))

end Item
end Relabel
