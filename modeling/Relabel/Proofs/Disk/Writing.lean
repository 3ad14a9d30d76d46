import Relabel.Proofs.Disk.Renaming

/-!
# Writing a file and reading it

* `Utf8.text?_encode`: the bytes of a text give the text.
* `Disk.Writes`: what writing a file does.
* `Disk.EndsAt`: the steps of a walk that ends in an entry.
* `Disk.readText_writeFile`: a file that has been written holds what was written.
-/

namespace Relabel

/-! ## Bytes -/

namespace Utf8

theorem toList_loop_eq (bytes : ByteArray) (i : Nat) (r : List UInt8) :
    ByteArray.toList.loop bytes i r = r.reverse ++ bytes.data.toList.drop i := by
  induction i, r using ByteArray.toList.loop.induct bytes with
  | case1 i r hi ih =>
    have hl : i < bytes.data.toList.length := by simpa using hi
    have hget : bytes.get! i = bytes.data.toList[i] := by
      rw [Array.getElem_toList]
      exact getElem!_pos bytes.data i (by simpa using hi)
    rw [ByteArray.toList.loop, if_pos hi, ih, List.drop_eq_getElem_cons hl, hget]
    simp
  | case2 i r hi =>
    have hl : bytes.data.toList.length ≤ i := by simpa using hi
    rw [ByteArray.toList.loop, if_neg hi, List.drop_eq_nil_of_le hl, List.append_nil]

/-- The bytes of a text give the text. -/
theorem text?_encode (s : String) : text? (encode s) = some s := by
  have hbytes : (⟨(encode s).toArray⟩ : ByteArray) = s.toByteArray := by
    rw [encode, ByteArray.toList, toList_loop_eq]
    simp [String.toUTF8]
  rw [text?, hbytes, String.fromUTF8?, dif_pos s.isValidUTF8]
  rfl

end Utf8

/-! ## Files -/

namespace Disk

variable {d d' : Disk} {a : Slot} {i : Nat} {content : List UInt8}

/-- What writing a file does: a file stands in the slot `a` that holds what was written, and the
slot was empty before or held this node, which was neither a directory nor a link. -/
structure Writes (d d' : Disk) (a : Slot) (i : Nat) (content : List UInt8) : Prop where
  current : d'.current = d.current
  folder : ∀ {j up es}, d.node? j = some (.folder up es) → ∃ es',
    d'.node? j = some (.folder up es') ∧ ∀ n, ⟨j, n⟩ ≠ a → es'.get? n = es.get? n
  link : ∀ {j target}, d.node? j = some (.link target) → d'.node? j = some (.link target)
  node : d'.node? i = some (.file content)
  entry : d'.nodeAt a = some i
  before : d.nodeAt a = none ∨
    d.nodeAt a = some i ∧ ∃ old, d.node? i = some (.file old)

/-! ## Walks to an entry -/

section

variable {jump jump' : Nat → List FileName → Bool → Except Fault Place} {follow : Bool}
  {k dir : Nat} {ns : List FileName} {x : Slot} {m : Option Nat} {slash slash' : Bool}

/-- A name that an entry can have. -/
structure Nameable (n : FileName) : Prop where
  ne_dot : n ≠ .dot
  ne_dotDot : n ≠ .dotDot
  length_le : n.length ≤ maxName

/-- A walk ends in the entry `x`, whose node is `m`: it leads on through directories, and the first
link that it follows leads there. -/
inductive EndsAt (d : Disk) (jump : Nat → List FileName → Bool → Except Fault Place)
    (follow : Bool) (x : Slot) (m : Option Nat) (slash' : Bool) :
    Nat → List FileName → Bool → Prop
  | dot {dir up es rest slash} : d.node? dir = some (.folder up es) →
    d.EndsAt jump follow x m slash' dir rest slash →
    d.EndsAt jump follow x m slash' dir (.dot :: rest) slash
  | dotDot {dir up es rest slash} : d.node? dir = some (.folder up es) →
    d.EndsAt jump follow x m slash' up rest slash →
    d.EndsAt jump follow x m slash' dir (.dotDot :: rest) slash
  | last {up es} : d.node? x.dir = some (.folder up es) →
    Nameable x.name → es.get? x.name = m →
    (∀ i target, m = some i → d.node? i = some (.link target) → (follow || slash') = false) →
    d.EndsAt jump follow x m slash' x.dir [x.name] slash'
  | through {dir up es n i up' es' rest slash} : d.node? dir = some (.folder up es) →
    Nameable n → es.get? n = some i → d.node? i = some (.folder up' es') → rest.isEmpty = false →
    d.EndsAt jump follow x m slash' i rest slash →
    d.EndsAt jump follow x m slash' dir (n :: rest) slash
  | link {dir up es n i target rest slash} : d.node? dir = some (.folder up es) →
    Nameable n → es.get? n = some i → d.node? i = some (.link target) →
    (rest.isEmpty && !(follow || slash)) = false →
    jump (if target.isAbsolute then root else dir) (target.steps ++ rest)
      (if rest.isEmpty then slash || target.endsInSlash else slash) =
        .ok (.entry x.dir x.name m slash') →
    d.EndsAt jump follow x m slash' dir (n :: rest) slash

/-- The walk ends with a step. -/
theorem endsAt_of_isEmpty {up : Nat} {es : Entries} {n : FileName} {o : Option Nat}
    (hr : ns.isEmpty = true) (hdir : d.node? dir = some (.folder up es)) (hn : Nameable n)
    (ho : es.get? n = o)
    (hlink : ∀ i target, o = some i → d.node? i = some (.link target) → (follow || slash) = false)
    (he : Except.ok (ε := Fault) (Place.entry dir n o slash) =
      .ok (.entry x.dir x.name m slash')) :
    d.EndsAt jump follow x m slash' dir (n :: ns) slash := by
  obtain ⟨xd, xn⟩ := x
  cases he
  rw [List.isEmpty_iff.mp hr]
  exact .last hdir hn ho hlink

theorem endsAt_of_walkWith
    (h : d.walkWith jump follow dir ns slash = .ok (.entry x.dir x.name m slash')) :
    d.EndsAt jump follow x m slash' dir ns slash := by
  induction ns generalizing dir with
  | nil => cases h
  | cons n rest ih =>
    rw [walkWith] at h
    split at h
    · next up es hdir =>
      split at h
      · next hn => exact hn ▸ .dot hdir (ih h)
      next hdot =>
      split at h
      · next hn => exact hn ▸ .dotDot hdir (ih h)
      next hdotDot =>
      split at h
      · cases h
      next hmax =>
      have hn : Nameable n := ⟨hdot, hdotDot, Nat.le_of_not_lt hmax⟩
      split at h
      · next ho =>
        split at h
        · next hr => exact endsAt_of_isEmpty hr hdir hn ho (by rintro _ _ ⟨⟩) h
        · cases h
      next i ho =>
      split at h
      · next target hi =>
        split at h
        · next hr =>
          have hr := Bool.and_eq_true_iff.mp hr
          exact endsAt_of_isEmpty hr.1 hdir hn ho (fun _ _ _ _ => by simpa using hr.2) h
        · next hr => exact .link hdir hn ho hi (Bool.eq_false_iff.mpr hr) h
      · next hi =>
        split at h
        · next hr =>
          refine endsAt_of_isEmpty hr hdir hn ho (fun j target hj ht => ?_) h
          cases hj
          cases hi.symm.trans ht
        · next hr => exact .through hdir hn ho hi (Bool.eq_false_iff.mpr hr) (ih h)
      · next hlink _ =>
        split at h
        · next hr =>
          refine endsAt_of_isEmpty hr hdir hn ho (fun j target hj ht => ?_) h
          cases hj
          exact absurd ht (hlink target)
        · cases h
    · cases h

theorem walkWith_of_endsAt (h : d.EndsAt jump follow x m slash' dir ns slash) :
    d.walkWith jump follow dir ns slash = .ok (.entry x.dir x.name m slash') := by
  induction h with
  | dot hdir _ ih => simp only [walkWith, hdir, if_true, ih]
  | dotDot hdir _ ih =>
    rw [walkWith, hdir]
    simp only [if_neg (by decide : FileName.dotDot ≠ .dot), if_true, ih]
  | last hdir hn ho hlink =>
    rw [walkWith, hdir]
    simp only [if_neg hn.ne_dot, if_neg hn.ne_dotDot, if_neg (Nat.not_lt_of_le hn.length_le), ho]
    split
    · rfl
    · split
      · next hi => rw [hlink _ _ rfl hi]; rfl
      · rfl
      · rfl
  | through hdir hn ho hi hr _ ih =>
    rw [walkWith, hdir]
    simp only [if_neg hn.ne_dot, if_neg hn.ne_dotDot, if_neg (Nat.not_lt_of_le hn.length_le), ho,
      hi, hr, ih]
    rfl
  | link hdir hn ho hi hr hj =>
    rw [walkWith, hdir]
    simp only [if_neg hn.ne_dot, if_neg hn.ne_dotDot, if_neg (Nat.not_lt_of_le hn.length_le), ho,
      hi, hr]
    exact hj

/-- In the slot a file stands now. -/
theorem Writes.get?_of_eq {up : Nat} {es : Entries} (h : d.Writes d' a i content)
    (hd : d'.node? a.dir = some (.folder up es)) : es.get? a.name = some i := by
  have he := h.entry
  rw [nodeAt, entries, hd] at he
  exact he

/-- A step that leads on, to a directory or along a link, is the same as before. -/
theorem Writes.get?_kept {up j : Nat} {es : Entries} {n : FileName}
    (h : d.Writes d' a i content) (hdir : d.node? dir = some (.folder up es))
    (hget : es.get? n = some j) (hj : ∀ old, d.node? j ≠ some (.file old)) :
    ∃ es', d'.node? dir = some (.folder up es') ∧ es'.get? n = some j := by
  obtain ⟨es', hdir', hes⟩ := h.folder hdir
  refine ⟨es', hdir', (hes n ?_).trans hget⟩
  rintro rfl
  have hn : d.nodeAt ⟨dir, n⟩ = some j := by rw [nodeAt, entries, hdir]; exact hget
  rcases h.before with hb | ⟨hb, old, hold⟩
  · cases hb.symm.trans hn
  · cases hb.symm.trans hn
    exact hj old hold

/-- A walk to where a file is written is a walk to the file. -/
theorem Writes.walkWith_eq (h : d.Writes d' a i content)
    (hj : ∀ j ns slash, jump j ns slash = .ok (.entry a.dir a.name m slash') →
      jump' j ns slash = .ok (.entry a.dir a.name (some i) slash'))
    (hw : d.walkWith jump true dir ns slash = .ok (.entry a.dir a.name m slash')) :
    d'.walkWith jump' true dir ns slash = .ok (.entry a.dir a.name (some i) slash') := by
  refine walkWith_of_endsAt ?_
  replace hw := endsAt_of_walkWith hw
  induction hw with
  | dot hdir _ ih =>
    obtain ⟨_, hdir', -⟩ := h.folder hdir
    exact .dot hdir' ih
  | dotDot hdir _ ih =>
    obtain ⟨_, hdir', -⟩ := h.folder hdir
    exact .dotDot hdir' ih
  | last hdir hn =>
    obtain ⟨es', hdir', -⟩ := h.folder hdir
    refine .last hdir' hn (h.get?_of_eq hdir') fun j target hi ht => ?_
    cases hi
    cases h.node.symm.trans ht
  | through hdir hn hget hnode hr _ ih =>
    obtain ⟨_, hdir', hget'⟩ := h.get?_kept hdir hget (by simp [hnode])
    obtain ⟨_, hnode', -⟩ := h.folder hnode
    exact .through hdir' hn hget' hnode' hr ih
  | link hdir hn hget hnode hr hjump =>
    obtain ⟨_, hdir', hget'⟩ := h.get?_kept hdir hget (by simp [hnode])
    exact .link hdir' hn hget' (h.link hnode) hr (hj _ _ _ hjump)

theorem Writes.walk_eq (h : d.Writes d' a i content)
    (hw : d.walk true k dir ns slash = .ok (.entry a.dir a.name m slash')) :
    d'.walk true k dir ns slash = .ok (.entry a.dir a.name (some i) slash') := by
  induction k generalizing dir ns slash with
  | zero => exact h.walkWith_eq (fun _ _ _ h => by cases h) hw
  | succ k ih => exact h.walkWith_eq (fun _ _ _ h => ih h) hw

/-- What a walk says of an entry is so in its directory. -/
theorem walkWith_entry
    (hj : ∀ j ns slash, jump j ns slash = .ok (.entry x.dir x.name m slash') →
      d.isFolder x.dir = true ∧ d.nodeAt x = m)
    (hw : d.walkWith jump follow dir ns slash = .ok (.entry x.dir x.name m slash')) :
    d.isFolder x.dir = true ∧ d.nodeAt x = m := by
  replace hw := endsAt_of_walkWith hw
  induction hw with
  | dot _ _ ih => exact ih
  | dotDot _ _ ih => exact ih
  | last hdir _ ho _ =>
    rw [isFolder, nodeAt, entries, hdir]
    exact ⟨rfl, ho⟩
  | through _ _ _ _ _ _ ih => exact ih
  | link _ _ _ _ _ hjump => exact hj _ _ _ hjump

theorem walk_entry
    (hw : d.walk follow k dir ns slash = .ok (.entry x.dir x.name m slash')) :
    d.isFolder x.dir = true ∧ d.nodeAt x = m := by
  induction k generalizing dir ns slash with
  | zero => exact walkWith_entry (fun _ _ _ h => by cases h) hw
  | succ k ih => exact walkWith_entry (fun _ _ _ h => ih h) hw

end

section

variable {p : Path}

theorem Writes.place_eq {m : Option Nat} (h : d.Writes d' a i content)
    (hp : d.place true p p.endsInSlash = .ok (.entry a.dir a.name m false)) :
    d'.place true p p.endsInSlash = .ok (.entry a.dir a.name (some i) false) := by
  obtain ⟨hc, hw⟩ := place_eq_ok.mp hp
  exact place_eq_ok.mpr ⟨hc, h.current ▸ h.walk_eq hw⟩

theorem writes_setNode {old : List UInt8} (hn : d.nodeAt a = some i)
    (hi : d.node? i = some (.file old)) :
    d.Writes (d.setNode i (.file content)) a i content where
  current := rfl
  folder {j up es} hj := by
    have hne : j ≠ i := by
      rintro rfl
      cases hi.symm.trans hj
    exact ⟨es, by rw [node?_setNode hi, if_neg hne, hj], fun _ _ => rfl⟩
  link {j target} hj := by
    have hne : j ≠ i := by
      rintro rfl
      cases hi.symm.trans hj
    rw [node?_setNode hi, if_neg hne, hj]
  node := by rw [node?_setNode hi, if_pos rfl]
  entry := by
    have hne : a.dir ≠ i := by
      rintro rfl
      rw [nodeAt, entries, hi] at hn
      cases hn
    rw [nodeAt, entries, node?_setNode hi, if_neg hne]
    exact hn
  before := .inr ⟨hn, old, hi⟩

theorem writes_create (hf : d.isFolder a.dir = true) (hn : d.nodeAt a = none) :
    d.Writes (d.create a.dir a.name (.file content)) a d.nodes.length content := by
  obtain ⟨up, es, hdir⟩ := node?_of_isFolder hf
  let d₁ : Disk := { d with nodes := d.nodes ++ [.file content] }
  have hkept {j : Nat} {n : Node} (hj : d.node? j = some n) : d₁.node? j = some n :=
    (List.getElem?_append_left (List.getElem?_eq_some_iff.mp hj).1).trans hj
  have hnew : d₁.node? d.nodes.length = some (.file content) := List.getElem?_concat_length
  have hd : d.create a.dir a.name (.file content) =
      d₁.setNode a.dir (.folder up (es.put a.name d.nodes.length)) := by
    have hes : d.entries a.dir = es := by rw [entries, hdir]
    rw [create, hes]
    change d₁.setEntries a.dir _ = _
    rw [setEntries, hkept hdir]
  have hset := fun x => node?_setNode (x := x)
    (n := .folder up (es.put a.name d.nodes.length)) (hkept hdir)
  rw [hd]
  refine ⟨rfl, ?_, ?_, ?_, ?_, .inl hn⟩
  · intro j up' es' hj
    by_cases hja : j = a.dir
    · subst hja
      cases hdir.symm.trans hj
      refine ⟨_, by rw [hset, if_pos rfl], fun n hne => ?_⟩
      rw [Entries.get?_put, if_neg]
      rintro rfl
      exact hne rfl
    · exact ⟨es', by rw [hset, if_neg hja, hkept hj], fun _ _ => rfl⟩
  · intro j target hj
    have hja : j ≠ a.dir := by
      rintro rfl
      cases hdir.symm.trans hj
    rw [hset, if_neg hja, hkept hj]
  · have hja : d.nodes.length ≠ a.dir := by
      rintro hja
      rw [← hja, node?, List.getElem?_eq_none (Nat.le_refl _)] at hdir
      cases hdir
    rw [hset, if_neg hja, hnew]
  · rw [nodeAt, entries, hset, if_pos rfl]
    exact (Entries.get?_put ..).trans (if_pos rfl)

theorem writes_of_writeFile (h : d.writeFile p content = .ok d') : ∃ a i m,
    d.place true p p.endsInSlash = .ok (.entry a.dir a.name m false) ∧
      d.Writes d' a i content := by
  unfold writeFile updateFile at h
  cases hp : d.place true p p.endsInSlash with
  | error e => rw [hp] at h; cases h
  | ok r =>
  rw [hp] at h
  simp only [bind, Except.bind] at h
  split at h
  · cases h
  · cases h
  · next dir name =>
    cases h
    obtain ⟨hf, hn⟩ := walk_entry (x := ⟨dir, name⟩) (place_eq_ok.mp hp).2
    exact ⟨⟨dir, name⟩, _, _, rfl, writes_create hf hn⟩
  · next dir name j =>
    obtain ⟨hf, hn⟩ := walk_entry (x := ⟨dir, name⟩) (place_eq_ok.mp hp).2
    split at h
    · next old hold =>
      cases h
      exact ⟨⟨dir, name⟩, _, _, rfl, writes_setNode hn hold⟩
    · cases h

theorem readText_of_place {dir : Nat} {name : FileName} {text : String}
    (hp : d.place true p p.endsInSlash = .ok (.entry dir name (some i) false))
    (hi : d.node? i = some (.file (Utf8.encode text))) :
    d.pathExists p = true ∧ d.readText p = .ok text := by
  refine ⟨by rw [pathExists, find, hp]; rfl, ?_⟩
  have hcontent : d.contentAt p = .ok (Utf8.encode text) := by
    simp [contentAt, hp, hi, bind, Except.bind]
  simp [readText, hcontent, Utf8.text?_encode, bind, Except.bind]

/-- A file that has been written holds what was written. -/
theorem readText_writeFile {text : String} (h : d.writeFile p (Utf8.encode text) = .ok d') :
    d'.pathExists p = true ∧ d'.readText p = .ok text := by
  obtain ⟨a, i, m, hp, hw⟩ := writes_of_writeFile h
  exact readText_of_place (hw.place_eq hp) hw.node

theorem place_of_contentAt (h : d.contentAt p = .ok content) : ∃ dir name i,
    d.place true p p.endsInSlash = .ok (.entry dir name (some i) false) ∧
      d.node? i = some (.file content) := by
  unfold contentAt at h
  cases hp : d.place true p p.endsInSlash with
  | error e =>
    rw [hp] at h
    cases h
  | ok r =>
    rw [hp] at h
    simp only [bind, Except.bind] at h
    split at h
    · cases h
    · cases h
    next dir name i slash =>
    split at h
    · next hi =>
      cases slash <;> cases h
      exact ⟨dir, name, i, rfl, hi⟩
    · cases h

theorem pathExists_of_readText {text : String} (h : d.readText p = .ok text) :
    d.pathExists p = true := by
  unfold readText at h
  cases hc : d.contentAt p with
  | error e =>
    rw [hc] at h
    cases h
  | ok bytes =>
    obtain ⟨dir, name, i, hp, -⟩ := place_of_contentAt hc
    rw [pathExists, find, hp]
    rfl

/-- Whether a file can be written does not depend on what is written. -/
theorem toBool_writeFile (d : Disk) (p : Path) (content content' : List UInt8) :
    (d.writeFile p content).toBool = (d.writeFile p content').toBool := by
  unfold writeFile updateFile
  cases d.place true p p.endsInSlash with
  | error e => rfl
  | ok r =>
    obtain _ | ⟨dir, name, _ | i, _ | _⟩ := r
    · rfl
    · rfl
    · rfl
    · simp only [bind, Except.bind]
      split <;> rfl
    · rfl

/-- A file that can be read can be written, since there are no permissions and there is always room
on the disk. -/
theorem writeFile_of_readText {old : String} (h : d.readText p = .ok old)
    (content : List UInt8) : ∃ d', d.writeFile p content = .ok d' := by
  unfold readText at h
  cases hc : d.contentAt p with
  | error e =>
    rw [hc] at h
    cases h
  | ok bytes =>
    obtain ⟨dir, name, i, hp, hi⟩ := place_of_contentAt hc
    exact ⟨d.setNode i (.file content), by simp [writeFile, updateFile, hp, hi, bind, Except.bind]⟩

end

end Disk
end Relabel
