import Relabel.Proofs.Disk.Writing

/-!
# Another name in the same directory

A path that has been given another last name is cut up again by whoever asks for its name. A name
without slashes comes out as it was put in, unless it is one or two dots; and no walk ends in an
entry whose name is dots.

* `Path.fileName?_withFileName`: the last name of a path that has been given another one.
* `Disk.nameable_of_slot?`: what a path that ends in an entry has as its last step.
* `Disk.fileName?_of_rename`: an entry that has been given another name has it.
-/

namespace Relabel

/-! ## Bytes -/

namespace Utf8

variable {s : String}

theorem lossy_encode (s : String) : lossy (encode s) = s := by
  rw [lossy, text?_encode]
  rfl

theorem encode_ne_nil (h : s ≠ "") : encode s ≠ [] := by
  intro hnil
  have hs := text?_encode s
  rw [hnil] at hs
  exact h (Option.some.inj hs).symm

theorem encode_eq (s : String) : encode s = s.toList.flatMap String.utf8EncodeChar := by
  have hs : s.toByteArray = (s.toList.flatMap String.utf8EncodeChar).toByteArray := by
    rw [← List.utf8Encode, ← String.toByteArray_ofList, String.ofList_toList]
  rw [encode, String.toUTF8, ByteArray.toList, toList_loop_eq, hs, List.toList_data_toByteArray]
  rfl

/-- Only an ASCII character itself has its byte. -/
theorem eq_of_mem_utf8EncodeChar {a c : Char} (ha : a.toNat < 128)
    (h : UInt8.ofNat a.toNat ∈ String.utf8EncodeChar c) : c = a := by
  have hbyte {n : Nat} (hn : n < 256) (h : UInt8.ofNat a.toNat = UInt8.ofNat n) :
      n = a.toNat := by
    have := congrArg UInt8.toNat h
    rwa [UInt8.toNat_ofNat_of_lt' (Nat.lt_trans ha (by decide)), UInt8.toNat_ofNat_of_lt' hn,
      eq_comm] at this
  have hlong (n : Nat) (hn : n < 256) (hbit : 128 ≤ n) : UInt8.ofNat a.toNat ≠ UInt8.ofNat n :=
    fun h => absurd (hbyte hn h) (by omega)
  unfold String.utf8EncodeChar at h
  dsimp only at h
  split at h
  · have hval := hbyte (by omega) (List.mem_singleton.mp h)
    exact Char.ext (UInt32.toNat_inj.mp hval)
  -- All bytes of a longer character have their highest bit.
  exfalso
  split at h
  · simp (disch := omega) only [List.mem_cons, List.not_mem_nil, hlong, or_self] at h
  split at h <;>
    simp (disch := omega) only [List.mem_cons, List.not_mem_nil, hlong, or_self] at h

theorem slash_notMem_encode (h : '/' ∉ s.toList) : Path.slash ∉ encode s := by
  rw [encode_eq]
  intro hm
  obtain ⟨c, hc, hslash⟩ := List.mem_flatMap.mp hm
  have hc' : c = '/' := eq_of_mem_utf8EncodeChar (by decide) hslash
  exact h (hc' ▸ hc)

end Utf8

/-! ## Paths -/

namespace Path

variable {p : Path} {n : FileName}

theorem cut_ne_nil (bytes : List UInt8) : cut bytes ≠ [] := by
  unfold cut
  split
  · exact List.cons_ne_nil _ _
  · split
    · exact List.cons_ne_nil _ _
    · split <;> exact List.cons_ne_nil _ _

theorem cut_of_slash_notMem (h : slash ∉ n) : cut n = [n] := by
  induction n with
  | nil => rfl
  | cons b rest ih =>
    obtain ⟨hb, hrest⟩ := List.ne_and_not_mem_of_not_mem_cons h
    rw [cut, if_neg (Ne.symm hb), ih hrest]

/-- A path is cut at a slash. -/
theorem cut_append_slash (front n : List UInt8) :
    cut (front ++ slash :: n) = cut front ++ cut n := by
  induction front with
  | nil => exact if_pos rfl
  | cons b rest ih =>
    rw [List.cons_append, cut, cut, ih]
    split
    · rfl
    · cases hr : cut rest with
      | nil => exact absurd hr (cut_ne_nil rest)
      | cons m ms => rfl

theorem isAbsolute_of_slash_notMem (h : slash ∉ n) : isAbsolute ⟨n⟩ = false := by
  refine Bool.eq_false_iff.mpr fun ha => h ?_
  exact List.mem_of_head? (eq_of_beq ha)

theorem join_of_slash_notMem (p : Path) (h : slash ∉ n) :
    p.join ⟨n⟩ = ⟨n⟩ ∨ ∃ front, p.join ⟨n⟩ = ⟨front ++ slash :: n⟩ := by
  rw [join, isAbsolute_of_slash_notMem h, if_neg nofun]
  split
  · next hp =>
    rcases Bool.or_eq_true_iff.mp hp with hempty | hslash
    · rw [List.isEmpty_iff.mp hempty]
      exact .inl rfl
    · obtain ⟨front, hfront⟩ := List.getLast?_eq_some_iff.mp (eq_of_beq hslash)
      rw [hfront, List.append_assoc]
      exact .inr ⟨front, rfl⟩
  · exact .inr ⟨p.bytes, rfl⟩

theorem segments_join (p : Path) (h : slash ∉ n) : ∃ ns, (p.join ⟨n⟩).segments = ns ++ [n] := by
  have hn := cut_of_slash_notMem h
  rcases p.join_of_slash_notMem h with hj | ⟨_ | ⟨b, front⟩, hj⟩
  · refine ⟨[], ?_⟩
    rw [hj, segments, isAbsolute_of_slash_notMem h]
    exact hn
  · rw [hj]
    exact ⟨[], hn⟩
  · rw [hj, segments]
    split
    · exact ⟨cut front, hn ▸ cut_append_slash front n⟩
    · exact ⟨cut (b :: front), hn ▸ cut_append_slash (b :: front) n⟩

theorem isIdle_eq_false (front : Bool) (hne : n ≠ []) (hdot : n ≠ .dot) :
    isIdle front n = false := by
  simp [isIdle, hne, hdot]

theorem dropIdleTail_append (ns : List FileName) (hne : n ≠ []) (hdot : n ≠ .dot) :
    dropIdle.dropIdleTail (ns ++ [n]) = ns ++ [n] := by
  induction ns with
  | nil => simp [dropIdle.dropIdleTail, isIdle_eq_false false hne hdot]
  | cons m ns ih =>
    rw [List.cons_append, dropIdle.dropIdleTail, ih]
    cases ns <;> rfl

/-- Nothing is left out before a segment that names something. -/
theorem dropIdle_append (absolute : Bool) (ns : List FileName) (hne : n ≠ []) (hdot : n ≠ .dot) :
    dropIdle absolute (ns ++ [n]) = ns ++ [n] := by
  cases ns with
  | nil => simp [dropIdle, dropIdle.dropIdleTail, isIdle_eq_false _ hne hdot]
  | cons m ns =>
    rw [List.cons_append, dropIdle, dropIdleTail_append ns hne hdot]
    cases ns <;> rfl

/-- To take another file name is to be joined to some path. -/
theorem exists_withFileName (p : Path) (n : FileName) :
    ∃ q : Path, p.withFileName n = q.join ⟨n⟩ := by
  unfold withFileName
  split <;> exact ⟨_, rfl⟩

/-- A name that has been joined is the file name, unless it is one or two dots. -/
theorem fileName?_join (p : Path) (h : slash ∉ n) (hne : n ≠ []) (hdot : n ≠ .dot)
    (hdots : n ≠ .dotDot) : (p.join ⟨n⟩).fileName? = some n := by
  obtain ⟨ns, hns⟩ := p.segments_join h
  rw [fileName?, hns, dropIdle_append _ ns hne hdot]
  simp [hdot, hdots]

/-- The last name of a path that has been given another one. -/
theorem fileName?_withFileName (p : Path) (h : slash ∉ n) (hne : n ≠ []) (hdot : n ≠ .dot)
    (hdots : n ≠ .dotDot) : (p.withFileName n).fileName? = some n := by
  obtain ⟨q, hq⟩ := p.exists_withFileName n
  rw [hq, q.fileName?_join h hne hdot hdots]

/-- The last step of a path with another file name is that name. -/
theorem getLast?_steps_withFileName (p : Path) (h : slash ∉ n) (hne : n ≠ []) :
    (p.withFileName n).steps.getLast? = some n := by
  obtain ⟨q, hq⟩ := p.exists_withFileName n
  obtain ⟨ns, hns⟩ := q.segments_join h
  rw [hq, steps, hns, List.filter_append]
  simp [hne]

end Path

/-! ## Walks -/

namespace Disk

variable {d d' : Disk} {p q : Path} {a : Slot} {n : FileName}

section

variable {jump : Nat → List FileName → Bool → Except Fault Place} {follow : Bool}
  {k dir : Nat} {ns : List FileName} {x : Slot} {m : Option Nat} {slash slash' : Bool}

/-- The last step of a walk that ends in an entry is a name. -/
theorem nameable_of_walkWith
    (hj : ∀ j ns slash, jump j ns slash = .ok (.entry x.dir x.name m slash') →
      ∀ n, ns.getLast? = some n → Nameable n)
    (hw : d.walkWith jump follow dir ns slash = .ok (.entry x.dir x.name m slash')) :
    ∀ n, ns.getLast? = some n → Nameable n := by
  replace hw := endsAt_of_walkWith hw
  induction hw with
  | @dot _ _ _ rest _ _ h ih | @dotDot _ _ _ rest _ _ h ih =>
    cases rest with
    | nil => cases h
    | cons r rest => exact ih
  | last _ hn =>
    rintro n ⟨⟩
    exact hn
  | @through _ _ _ _ _ _ _ rest _ _ _ _ _ hr _ ih =>
    cases rest with
    | nil => cases hr
    | cons r rest => exact ih
  | @link _ _ _ _ _ target rest _ _ hn _ _ _ hjump =>
    cases rest with
    | nil =>
      rintro n ⟨⟩
      exact hn
    | cons r rest =>
      intro n hlast
      refine hj _ _ _ hjump n ?_
      rw [List.getLast?_append, show (r :: rest).getLast? = some n from hlast]
      rfl

theorem nameable_of_walk
    (hw : d.walk follow k dir ns slash = .ok (.entry x.dir x.name m slash'))
    (hn : ns.getLast? = some n) : Nameable n := by
  induction k generalizing dir ns slash n with
  | zero => exact nameable_of_walkWith (fun _ _ _ h => by cases h) hw n hn
  | succ k ih => exact nameable_of_walkWith (fun _ _ _ h _ hn => ih h hn) hw n hn

end

theorem nameable_of_slot? (h : d.slot? q = some a) (hn : q.steps.getLast? = some n) :
    Nameable n := by
  obtain ⟨-, hp⟩ := place_of_slot? h
  exact nameable_of_walk (x := a) (place_eq_ok.mp hp).2 hn

/-- An entry that has been given another name has it. -/
theorem fileName?_of_rename (h : d.rename p (q.withFileName n) = .ok d')
    (hslash : Path.slash ∉ n) (hne : n ≠ []) : (q.withFileName n).fileName? = some n := by
  obtain ⟨_, _, _, -, hslot, -⟩ := nodeAt_target h
  have hn := nameable_of_slot? hslot (q.getLast?_steps_withFileName hslash hne)
  exact q.fileName?_withFileName hslash hne hn.ne_dot hn.ne_dotDot

end Disk
end Relabel
