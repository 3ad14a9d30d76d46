import Mathlib.Data.List.Basic
import Relabel.Proofs.Disk.NewName

/-!
# Paths with another last name

Two paths that differ in their last name only are cut into the same segments up to there.

* `Path.Parts`: a path that ends in a name, taken apart.
* `Path.segments_withFileName`: the segments of a path that has been given another last name.
* `Path.parent?_withFileName`: the path without its last segment is the same.
* `Path.parting_steps`: where the steps of the two paths part.
-/

namespace Relabel

namespace Path

variable {p : Path} {n m : FileName} {ns : List FileName} {absolute : Bool}

/-! ## Cutting and joining -/

theorem slash_notMem_of_mem_cut {bytes : List UInt8} (h : n ∈ cut bytes) : slash ∉ n := by
  induction bytes generalizing n with
  | nil =>
    obtain rfl := List.mem_singleton.mp h
    exact List.not_mem_nil
  | cons b rest ih =>
    rw [cut] at h
    split at h
    · rcases List.mem_cons.mp h with rfl | h
      · exact List.not_mem_nil
      · exact ih h
    next hb =>
    split at h
    · next hnil => exact absurd hnil (cut_ne_nil rest)
    next k ks hcut =>
    rw [hcut] at ih
    rcases List.mem_cons.mp h with rfl | h
    · intro hm
      rcases List.mem_cons.mp hm with hslash | hm
      · exact hb hslash.symm
      · exact ih List.mem_cons_self hm
    · exact ih (List.mem_cons_of_mem k h)

theorem slash_notMem_of_mem_segments (h : n ∈ p.segments) : slash ∉ n := by
  unfold segments at h
  split at h <;> exact slash_notMem_of_mem_cut h

theorem glue_concat (hns : ns ≠ []) (n : FileName) : glue (ns ++ [n]) = glue ns ++ slash :: n := by
  induction ns with
  | nil => exact absurd rfl hns
  | cons m ns ih =>
    cases ns with
    | nil => rfl
    | cons k ks => simpa [glue] using ih (List.cons_ne_nil k ks)

theorem cut_glue (hns : ns ≠ []) (h : ∀ n ∈ ns, slash ∉ n) : cut (glue ns) = ns := by
  induction ns with
  | nil => exact absurd rfl hns
  | cons n ns ih =>
    obtain ⟨hn, hrest⟩ := List.forall_mem_cons.mp h
    cases ns with
    | nil => exact cut_of_slash_notMem hn
    | cons m ns =>
      rw [glue, cut_append_slash, cut_of_slash_notMem hn, ih (List.cons_ne_nil m ns) hrest]
      · rfl
      · exact nofun

/-! ## The segments that name something -/

theorem eq_of_isIdle {front : Bool} (h : isIdle front n = true) : n = [] ∨ n = .dot := by
  rcases Bool.or_eq_true_iff.mp h with h | h
  · exact .inl (List.isEmpty_iff.mp h)
  · exact .inr (eq_of_beq (Bool.and_eq_true_iff.mp h).1)

theorem dropIdleTail_eq (ns : List FileName) : dropIdle.dropIdleTail ns = dropIdle true ns := by
  cases ns <;> rfl

theorem dropIdle_cons (absolute : Bool) (n : FileName) (ns : List FileName) :
    dropIdle absolute (n :: ns) =
      if dropIdle true ns = [] then if isIdle (!absolute) n then [] else [n]
      else n :: dropIdle true ns := by
  rw [dropIdle, dropIdleTail_eq]
  split
  · next hnil => rw [if_pos hnil]
  · next hne => rw [if_neg hne]

/-- Only segments that name nothing are left out. -/
theorem dropIdle_cut (absolute : Bool) (ns : List FileName) :
    ∃ idle, ns = dropIdle absolute ns ++ idle ∧ ∀ m ∈ idle, m = [] ∨ m = .dot := by
  induction ns generalizing absolute with
  | nil => exact ⟨[], rfl, nofun⟩
  | cons n ns ih =>
    obtain ⟨idle, hns, hidle⟩ := ih true
    rw [dropIdle_cons]
    split
    · next hnil =>
      rw [hnil, List.nil_append] at hns
      subst hns
      split
      · next hn => exact ⟨n :: ns, rfl, List.forall_mem_cons.mpr ⟨eq_of_isIdle hn, hidle⟩⟩
      · exact ⟨ns, rfl, hidle⟩
    · exact ⟨idle, congrArg (n :: ·) hns, hidle⟩

theorem dropIdle_dropIdle (absolute : Bool) (ns : List FileName) :
    dropIdle absolute (dropIdle absolute ns) = dropIdle absolute ns := by
  induction ns generalizing absolute with
  | nil => rfl
  | cons n ns ih =>
    rw [dropIdle_cons absolute n ns]
    split
    · split
      · rfl
      · next hn =>
        rw [dropIdle_cons, if_neg hn]
        rfl
    · next hne => rw [dropIdle_cons, ih, if_neg hne]

/-- The last segment that is kept is not empty. -/
theorem ne_nil_of_getLast?_dropIdle (h : (dropIdle absolute ns).getLast? = some n) : n ≠ [] := by
  induction ns generalizing absolute with
  | nil => cases h
  | cons m ns ih =>
    rw [dropIdle_cons] at h
    split at h
    · split at h
      · cases h
      · next hm =>
        cases h
        rintro rfl
        exact hm rfl
    · next hne =>
      obtain ⟨k, ks, hks⟩ := List.exists_cons_of_ne_nil hne
      rw [hks, List.getLast?_cons_cons, ← hks] at h
      exact ih h

/-! ## Another last name -/

theorem endsInSlash_of_append {pre : List UInt8} (h : p.bytes = pre ++ n) (hne : n ≠ [])
    (hslash : slash ∉ n) : p.endsInSlash = false := by
  rw [endsInSlash, h, List.getLast?_append_of_ne_nil _ hne]
  exact Bool.eq_false_iff.mpr fun hlast => hslash (List.mem_of_getLast? (eq_of_beq hlast))

theorem head?_cut_eq_nil {bytes : List UInt8} (h : (cut bytes).head? = some []) :
    bytes = [] ∨ bytes.head? = some slash := by
  cases bytes with
  | nil => exact .inl rfl
  | cons b rest =>
    rw [cut] at h
    split at h
    · next hb => exact .inr (congrArg some hb)
    · split at h <;> cases h

/-- A path that ends in a name, cut into the directories on the way, segments that name nothing and
the name. -/
structure Parts (p : Path) (front : List FileName) (n : FileName) : Prop where
  parent : p.parent? = some (ofSegments p.isAbsolute front)
  settled : dropIdle p.isAbsolute front = front
  pieces : ∃ idle tail, p.segments = front ++ idle ++ n :: tail ∧
    ∀ m ∈ idle ++ tail, m = [] ∨ m = .dot
  name : n ≠ []

theorem parent?_of_ne_nil (h : dropIdle p.isAbsolute p.segments ≠ []) : p.parent? = some
    (ofSegments p.isAbsolute
      (dropIdle p.isAbsolute (dropIdle p.isAbsolute p.segments).dropLast)) := by
  unfold parent?
  split
  · next hnil => exact absurd hnil h
  · rfl

/-- A path that has a file name is cut into its parts. -/
theorem parts_of_fileName? (h : p.fileName? = some n) : ∃ front, p.Parts front n := by
  unfold fileName? at h
  dsimp only at h
  obtain ⟨tail, hsegments, htail⟩ := dropIdle_cut p.isAbsolute p.segments
  split at h
  · next m hlast =>
    split at h
    · cases h
    cases h
    obtain ⟨ks, hks⟩ := List.getLast?_eq_some_iff.mp hlast
    obtain ⟨idle, hfront, hidle⟩ := dropIdle_cut p.isAbsolute ks
    refine ⟨dropIdle p.isAbsolute ks, ?_, dropIdle_dropIdle .., ⟨idle, tail, ?_, ?_⟩, ?_⟩
    · have hne : dropIdle p.isAbsolute p.segments ≠ [] := by simp [hks]
      rw [parent?_of_ne_nil hne, hks, List.dropLast_concat]
    · rw [← hfront]
      rw [hks] at hsegments
      simpa using hsegments
    · exact List.forall_mem_append.mpr ⟨hidle, htail⟩
    · exact ne_nil_of_getLast?_dropIdle hlast
  · cases h

namespace Parts

variable {front : List FileName} {k : FileName}

theorem slash_notMem (h : p.Parts front n) (hm : m ∈ front) : slash ∉ m := by
  obtain ⟨idle, tail, hcut, -⟩ := h.pieces
  have hmem : m ∈ p.segments := by
    rw [hcut]
    simp [hm]
  exact slash_notMem_of_mem_segments hmem

theorem getLast_ne_nil (h : p.Parts front n) (hm : front.getLast? = some m) : m ≠ [] :=
  ne_nil_of_getLast?_dropIdle (h.settled.symm ▸ hm)

/-- A relative path begins with a name. -/
theorem head_ne_nil (h : p.Parts front n) (ha : p.isAbsolute = false) (hm : front.head? = some m) :
    m ≠ [] := by
  rintro rfl
  obtain ⟨idle, tail, hcut, -⟩ := h.pieces
  obtain ⟨rest, rfl⟩ := List.head?_eq_some_iff.mp hm
  rw [segments, ha, if_neg Bool.false_ne_true] at hcut
  have hhead : (Path.cut p.bytes).head? = some [] := by
    rw [hcut]
    rfl
  rcases head?_cut_eq_nil hhead with hnil | hslash
  · rw [hnil] at hcut
    simp [Path.cut] at hcut
  · rw [isAbsolute, hslash] at ha
    cases ha

theorem isAbsolute_parent (h : p.Parts front n) (hfront : front ≠ []) :
    (ofSegments p.isAbsolute front).isAbsolute = p.isAbsolute := by
  cases ha : p.isAbsolute with
  | true => rfl
  | false =>
    obtain ⟨m, ms, rfl⟩ := List.exists_cons_of_ne_nil hfront
    have hm : m ≠ [] := h.head_ne_nil ha rfl
    have hslash : slash ∉ m := h.slash_notMem List.mem_cons_self
    obtain ⟨b, bs, rfl⟩ := List.exists_cons_of_ne_nil hm
    have hb : b ≠ slash := fun hb => hslash (hb ▸ List.mem_cons_self)
    cases ms <;> simpa [ofSegments, glue, isAbsolute] using hb

/-- A path with a segment ends in the last one. -/
theorem bytes_parent (h : p.Parts front n) (hfront : front ≠ []) :
    ∃ pre m, (ofSegments p.isAbsolute front).bytes = pre ++ m ∧ m ≠ [] ∧ slash ∉ m := by
  cases hlast : front.getLast? with
  | none => exact absurd (List.getLast?_eq_none_iff.mp hlast) hfront
  | some m =>
    have hm : m ≠ [] := h.getLast_ne_nil hlast
    have hslash : slash ∉ m := h.slash_notMem (List.mem_of_getLast? hlast)
    have hglue : ∃ pre, glue front = pre ++ m := by
      obtain ⟨ks, rfl⟩ := List.getLast?_eq_some_iff.mp hlast
      by_cases hks : ks = []
      · exact ⟨[], by rw [hks]; rfl⟩
      · exact ⟨glue ks ++ [slash], by rw [glue_concat hks]; simp⟩
    obtain ⟨pre, hpre⟩ := hglue
    unfold ofSegments
    split
    · exact ⟨slash :: pre, m, congrArg (slash :: ·) hpre, hm, hslash⟩
    · exact ⟨pre, m, hpre, hm, hslash⟩

theorem withFileName_eq_join (h : p.Parts front n) (hn : p.fileName? = some n) (k : FileName) :
    p.withFileName k = (ofSegments p.isAbsolute front).join ⟨k⟩ := by
  rw [withFileName, hn, h.parent]
  rfl

/-- The segments of the path with another last name. -/
theorem segments_withFileName (h : p.Parts front n) (hn : p.fileName? = some n) (hk : slash ∉ k) :
    (p.withFileName k).segments = front ++ [k] ∧
      (p.withFileName k).isAbsolute = p.isAbsolute := by
  have hka := isAbsolute_of_slash_notMem hk
  have hkc := cut_of_slash_notMem hk
  rw [h.withFileName_eq_join hn, join, hka, if_neg Bool.false_ne_true]
  by_cases hfront : front = []
  · subst hfront
    cases p.isAbsolute with
    | false =>
      refine ⟨?_, hka⟩
      change segments ⟨k⟩ = [k]
      rw [segments, hka]
      exact hkc
    | true => exact ⟨hkc, rfl⟩
  · obtain ⟨pre, m, hbytes, hm, hslash⟩ := h.bytes_parent hfront
    have hne : (ofSegments p.isAbsolute front).bytes ≠ [] := by
      rw [hbytes]
      exact List.append_ne_nil_of_right_ne_nil pre hm
    have habs : isAbsolute ⟨(ofSegments p.isAbsolute front).bytes ++ slash :: k⟩ =
        p.isAbsolute := by
      rw [isAbsolute, List.head?_append_of_ne_nil _ hne]
      exact h.isAbsolute_parent hfront
    have hcut : cut (glue front ++ slash :: k) = front ++ [k] := by
      rw [cut_append_slash, cut_glue hfront fun m hm => h.slash_notMem hm, hkc]
    rw [isEmpty, List.isEmpty_eq_false_iff.mpr hne, endsInSlash_of_append hbytes hm hslash,
      Bool.or_false, if_neg Bool.false_ne_true]
    refine ⟨?_, habs⟩
    rw [segments, habs]
    cases p.isAbsolute with
    | false => exact hcut
    | true => exact hcut

end Parts

/-- The path without its last segment does not depend on the last name. -/
theorem parent?_withFileName (hn : p.fileName? = some n) (hk : slash ∉ m) (hne : m ≠ [])
    (hdot : m ≠ .dot) : (p.withFileName m).parent? = p.parent? := by
  obtain ⟨front, h⟩ := parts_of_fileName? hn
  obtain ⟨hsegments, habs⟩ := h.segments_withFileName hn hk
  have hdrop : dropIdle (p.withFileName m).isAbsolute (p.withFileName m).segments =
      front ++ [m] := by
    rw [hsegments, dropIdle_append _ front hne hdot]
  rw [parent?_of_ne_nil (by simp [hdrop]), hdrop, List.dropLast_concat, habs, h.settled, h.parent]

/-- A path with another file name does not ask for a directory. -/
theorem endsInSlash_withFileName (p : Path) (hk : slash ∉ m) (hne : m ≠ []) :
    (p.withFileName m).endsInSlash = false := by
  obtain ⟨q, hq⟩ := p.exists_withFileName m
  rw [hq]
  rcases q.join_of_slash_notMem hk with hj | ⟨front, hj⟩
  · rw [hj]
    exact endsInSlash_of_append (List.nil_append m).symm hne hk
  · rw [hj]
    exact endsInSlash_of_append (List.append_cons front slash m) hne hk

/-- Two lists of steps that differ in dots at the end, which lead nowhere, and behind them in the
last step. -/
inductive Parting (n m : FileName) : List FileName → List FileName → Prop
  | last : Parting n m [n] [m]
  | dot {ns : List FileName} : Parting n m ns [m] → Parting n m (.dot :: ns) [m]
  | step (k : FileName) {ns ms : List FileName} : Parting n m ns ms →
    Parting n m (k :: ns) (k :: ms)

/-- Steps that both paths take come first. -/
theorem Parting.append {ns ms : List FileName} (h : Parting n m ns ms) (ks : List FileName) :
    Parting n m (ks ++ ns) (ks ++ ms) := by
  induction ks with
  | nil => exact h
  | cons k ks ih => exact .step k ih

theorem Parting.isEmpty_eq_false {ns ms : List FileName} (h : Parting n m ns ms) :
    ns.isEmpty = false ∧ ms.isEmpty = false := by
  cases h <;> exact ⟨rfl, rfl⟩

theorem Parting.getLast? {ns ms : List FileName} (h : Parting n m ns ms) :
    ns.getLast? = some n := by
  induction h with
  | last => rfl
  | dot _ ih | step _ _ ih =>
    rw [List.getLast?_cons, ih]
    rfl

/-- Dots before the last step lead nowhere. -/
theorem parting_of_dots {dots : List FileName} (h : ∀ k ∈ dots, k = .dot) :
    Parting n m (dots ++ [n]) [m] := by
  induction dots with
  | nil => exact .last
  | cons k dots ih =>
    obtain ⟨rfl, hdots⟩ := List.forall_mem_cons.mp h
    exact .dot (ih hdots)

/-- The steps of a path whose last one is no dot, and those of the path with another last name. -/
theorem parting_steps (hn : p.fileName? = some n) (hk : slash ∉ m) (hne : m ≠ [])
    (hlast : p.steps.getLast? ≠ some .dot) : Parting n m p.steps (p.withFileName m).steps ∧
      (p.withFileName m).isAbsolute = p.isAbsolute := by
  obtain ⟨front, h⟩ := parts_of_fileName? hn
  obtain ⟨hsegments, habs⟩ := h.segments_withFileName hn hk
  refine ⟨?_, habs⟩
  obtain ⟨idle, tail, hpieces, hidle⟩ := h.pieces
  have hdots {ks : List FileName} (hks : ∀ k ∈ ks, k = [] ∨ k = .dot) :
      ∀ k ∈ ks.filter (! ·.isEmpty), k = .dot := by
    intro k hk
    obtain ⟨hk, hne⟩ := List.mem_filter.mp hk
    exact (hks k hk).resolve_left fun hnil => by simp [hnil] at hne
  obtain ⟨hidle, htail⟩ := List.forall_mem_append.mp hidle
  have hsteps : p.steps = front.filter (! ·.isEmpty) ++ (idle.filter (! ·.isEmpty) ++
      n :: tail.filter (! ·.isEmpty)) := by
    simp [steps, hpieces, h.name]
  have hsteps' : (p.withFileName m).steps = front.filter (! ·.isEmpty) ++ [m] := by
    simp [steps, hsegments, hne]
  -- Behind the name there could only be dots.
  have hnone : tail.filter (! ·.isEmpty) = [] := by
    by_contra htne
    obtain ⟨k, hk⟩ := Option.ne_none_iff_exists'.mp (mt List.getLast?_eq_none_iff.mp htne)
    refine hlast ?_
    rw [hsteps, List.getLast?_append_of_ne_nil _ (by simp),
      List.getLast?_append_of_ne_nil _ (List.cons_ne_nil n _), List.getLast?_cons, hk,
      hdots htail k (List.mem_of_getLast? hk)]
    rfl
  rw [hsteps, hsteps', hnone]
  exact (parting_of_dots (hdots hidle)).append _

end Path

end Relabel
