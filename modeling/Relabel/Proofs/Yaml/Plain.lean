import Relabel.Proofs.Yaml.Quoted

/-!
# Plain scalars are read back

A plain scalar ends at its line's end, as the next line is indented by less. Within it nothing looks
like a comment or the end of a key.

* `PlainInner`: what a plain scalar may go on with.
* `plain_line`: the scalar is read back, with the line end behind it.
* `plain_key`: a key is read up to its colon.
* `Scan.take_plain`: the scanner takes it for a plain scalar.
-/

namespace Relabel.Yaml

variable {c : Char} {s t : List Char} {place : Place} {next : Next} {p : Pending} {n : Nat}

/-! ## The line end behind a scalar -/

theorem plain_break (hc : isBreak c = true) (s : List Char) :
    plain false n p place (c :: s) = plain false n (p.addBreak c) (place.after c) s := by
  rw [plain.eq_def]
  exact if_pos hc

theorem plain_spaces (first more : List Char) (k : Nat) (s : List Char) (place : Place) :
    plain false n (.breaks first more) place (spaces k ++ s) =
      plain false n (.breaks first more) (place.afterAll (spaces k)) s := by
  induction k generalizing place with
  | zero => rfl
  | succ k ih =>
    rw [spaces_succ, List.cons_append, plain.eq_def]
    simp only [show isBreak ' ' = false from rfl, show isBlank ' ' = true from rfl,
      show (' ' == '\t') = false from rfl, Bool.and_false, Bool.false_eq_true, if_false, if_true]
    exact ih (place.after ' ')

theorem plain_next (first more : List Char) (hn : next.Regular) (hi : next.indent < n)
    (hp : place.column = 0) : plain false n (.breaks first more) place next.text =
      .ok ⟨([], true), next.body, place.afterAll (spaces next.indent)⟩ := by
  have hcol := place.column_afterAll_spaces next.indent
  rw [hp, Nat.zero_add] at hcol
  rw [Next.text, plain_spaces]
  cases hn with
  | ended => rfl
  | @line k c r hc =>
    have he : endsPlain false n (.breaks first more) (place.afterAll (spaces k)) (c :: r) = true := by
      simp [endsPlain, hcol, hi]
    rw [plain.eq_def]
    simp only [isBreak_of_isWordChar hc, isBlank_of_isWordChar hc, he, Bool.false_eq_true, if_false,
      if_true]
    rfl

/-! ## The scalar -/

/-- What a plain scalar may go on with up to its end. -/
structure PlainInner (s : List Char) : Prop where
  chars : ∀ c ∈ s, isPrintable c = true ∧ isBreak c = false
  marks : hasInnerMark s = false
  last : s.getLast? ≠ some ' '

namespace PlainInner

theorem tail (h : PlainInner (c :: s)) : PlainInner s where
  chars d hd := h.chars d (List.mem_cons_of_mem c hd)
  marks := by
    have := h.marks
    simp only [hasInnerMark, Bool.or_eq_false_iff] at this
    exact this.2
  last := by
    cases s with
    | nil => nofun
    | cons d s => simpa using h.last

theorem head (h : PlainInner (c :: s)) : isPrintable c = true ∧ isBreak c = false :=
  h.chars c (List.mem_cons_self ..)

theorem ne_nil_of_space (h : PlainInner (' ' :: s)) : s ≠ [] := by
  rintro rfl
  exact h.last rfl

theorem head_of_space (h : PlainInner (' ' :: s)) : s.head? ≠ some '#' := by
  have := h.marks
  simp only [hasInnerMark, Bool.or_eq_false_iff] at this
  simpa [isBlank] using this.1.2

/-- A colon does not end a key here, also with a line end behind the scalar. -/
theorem endsWord_of_colon (h : PlainInner (':' :: s)) (t : List Char) :
    endsWord (s ++ t) = false := by
  have := h.marks
  simp only [hasInnerMark, Bool.or_eq_false_iff, beq_self_eq_true, Bool.true_and, spaceFollows]
    at this
  cases s with
  | nil => exact absurd this.1.1.1 (by decide)
  | cons d s => exact this.1.1.1

theorem endsPlain_eq_false (h : PlainInner (c :: s)) (hh : p ≠ .none → c ≠ '#')
    (hp : n ≤ place.column) (hn : 0 < n) (t : List Char) :
    endsPlain false n p place (c :: (s ++ t)) = false := by
  have hcol : (place.column == 0) = false := beq_false_of_ne (by omega)
  simp only [endsPlain, hcol, Bool.false_and, Bool.or_false, Bool.or_eq_false_iff, Bool.not_false,
    Bool.true_and, Bool.and_eq_false_iff, bne_eq_false_iff_eq, beq_eq_false_iff_ne,
    decide_eq_false_iff_not, Nat.not_lt]
  refine ⟨?_, ?_⟩
  · by_cases hpn : p = .none
    · exact .inl hpn
    · exact .inr ⟨hh hpn, hp⟩
  · by_cases hc : c = ':'
    · subst hc
      exact .inr (h.endsWord_of_colon t)
    · exact .inl hc

end PlainInner

/-- A plain scalar is read back, from wherever the reader is in it, with the line end behind it. -/
theorem plain_line (h : PlainInner s) (hb : p.isBreaks = false) (hs : s = [] → p = .none)
    (hh : p ≠ .none → s.head? ≠ some '#') (hn : 0 < n) (hp : n ≤ place.column)
    (hr : next.Regular) (hi : next.indent < n) :
    plain false n p place (s ++ '\n' :: next.text) =
      .ok ⟨(p.text ++ s, true), next.body, place.afterAll (s ++ '\n' :: spaces next.indent)⟩ := by
  induction s generalizing p place with
  | nil =>
    obtain rfl := hs rfl
    exact (plain_break rfl _).trans (plain_next ['\n'] [] hr hi rfl)
  | cons c s ih =>
    obtain ⟨hpr, hc⟩ := h.head
    have hcol : n ≤ (place.after c).column := by
      rw [Place.after_of_not_isBreak hc]
      exact Nat.le_succ_of_le hp
    rw [List.cons_append, plain.eq_def]
    simp only [hc, Bool.false_eq_true, if_false]
    cases hl : isBlank c with
    | true =>
      obtain rfl := eq_space_of_isBlank hpr hl
      have h' : plain false n (p.addBlank ' ') (place.after ' ') (s ++ '\n' :: next.text) = _ :=
        ih h.tail ((p.isBreaks_addBlank ' ').trans hb) (fun hs => absurd hs h.ne_nil_of_space)
          (fun _ => h.head_of_space) hcol
      simp only [hb, Bool.false_and, Bool.false_eq_true, if_false, if_true]
      rw [h', p.text_addBlank hb, List.append_assoc]
      rfl
    | false =>
      have h' : plain false n .none (place.after c) (s ++ '\n' :: next.text) = _ :=
        ih h.tail rfl (fun _ => rfl) (fun hn => absurd rfl hn) hcol
      have he := h.endsPlain_eq_false (p := p) (fun hn hc => hh hn (congrArg some hc)) hp hn
        ('\n' :: next.text)
      simp only [he, h', Bool.false_and, Bool.false_eq_true, if_false]
      rfl

/-! ## Keys -/

/-- The character may stand in a key. -/
def isKeyChar (c : Char) : Bool := c.isAlpha || c == '_'

/-- Characters of keys are characters of words. -/
theorem isWordChar_of_isKeyChar (h : isKeyChar c = true) : isWordChar c = true := by
  simp only [isKeyChar, Bool.or_eq_true, beq_iff_eq] at h
  rcases h with h | rfl
  · simp [isWordChar, Char.isAlphanum, h]
  · rfl

theorem ne_of_isKeyChar {d : Char} (h : isKeyChar c = true) (hd : isKeyChar d = false) : c ≠ d := by
  rintro rfl
  rw [h] at hd
  cases hd

/-- No key is read as a mark between documents. -/
theorem isDocumentMark_of_isKeyChar (h : isKeyChar c = true) (s : List Char) :
    isDocumentMark (c :: s) = false := by
  have hm : c ≠ '-' := ne_of_isKeyChar h (by decide)
  have hd : c ≠ '.' := ne_of_isKeyChar h (by decide)
  unfold isDocumentMark
  split
  · next he => exact absurd (List.cons.inj he).1 hm
  · next he => exact absurd (List.cons.inj he).1 hd
  · rfl

/-- A key is read up to its colon. -/
theorem plain_key (h : ∀ c ∈ s, isKeyChar c = true) (hr : endsWord t = true) :
    plain false n .none place (s ++ ':' :: t) =
      .ok ⟨(s, false), ':' :: t, place.afterAll s⟩ := by
  induction s generalizing place with
  | nil =>
    have he : endsPlain false n .none place (':' :: t) = true := by simp [endsPlain, hr]
    rw [List.nil_append, plain.eq_def]
    simp only [show isBreak ':' = false from rfl, show isBlank ':' = false from rfl, he,
      Bool.false_eq_true, if_false, if_true]
    rfl
  | cons c s ih =>
    obtain ⟨hc, hs⟩ := List.forall_mem_cons.mp h
    have hw := isWordChar_of_isKeyChar hc
    have hcol : (c == ':') = false := beq_false_of_ne (ne_of_isKeyChar hc (by decide))
    have he : endsPlain false n .none place (c :: (s ++ ':' :: t)) = false := by
      simp [endsPlain, isDocumentMark_of_isKeyChar hc, hcol]
    rw [List.cons_append, plain.eq_def]
    simp only [isBreak_of_isWordChar hw, isBlank_of_isWordChar hw, he, Bool.false_and,
      Bool.false_eq_true, if_false, ih hs]
    rfl

/-! ## The start of a scalar -/

theorem endsWord_append (h : spaceFollows s = false) (t : List Char) :
    endsWord (s ++ t) = false := by
  cases s with
  | nil => cases h
  | cons c s => exact (Bool.or_eq_false_iff.mp h).1

theorem ne_of_not_hasOpeningMark {d : Char} (h : hasOpeningMark (c :: s) = false)
    (hd : "#,[]\x7b\x7d&*!|>'\"%@\x60".toList.contains d = true) : (c == d) = false := by
  refine beq_false_of_ne ?_
  rintro rfl
  simp only [hasOpeningMark, hd, Bool.true_or] at h
  cases h

/-- A hyphen, a question mark or a colon that opens a plain scalar is not a mark of its own. -/
theorem endsWord_of_not_hasOpeningMark (h : hasOpeningMark (c :: s) = false)
    (hc : c = '?' ∨ c = ':' ∨ c = '-') (t : List Char) : endsWord (s ++ t) = false := by
  refine endsWord_append ?_ t
  simp only [hasOpeningMark, Bool.or_eq_false_iff, Bool.and_eq_false_iff] at h
  rcases h.1.1.2 with hn | hn
  · simp only [beq_eq_false_iff_ne] at hn
    rcases hc with rfl | rfl | rfl <;> simp at hn
  · exact hn

theorem hasOpeningMark_of_isKeyChar (h : isKeyChar c = true) (s : List Char) :
    hasOpeningMark (c :: s) = false := by
  have hne {d : Char} (hd : isKeyChar d = false) : c ≠ d := ne_of_isKeyChar h hd
  have hm : "#,[]\x7b\x7d&*!|>'\"%@\x60".toList.contains c = false := by
    rw [List.contains_eq_mem, decide_eq_false_iff_not]
    intro hc
    have hall : "#,[]\x7b\x7d&*!|>'\"%@\x60".toList.all (fun d => !isKeyChar d) = true := by decide
    have hnot := List.all_eq_true.mp hall c hc
    exact hne (by simpa using hnot) rfl
  have hp (d : Char) (hd : isKeyChar d = false) (w : List Char) :
      (d :: w).isPrefixOf (c :: s) = false := by
    rw [List.isPrefixOf, beq_false_of_ne (hne hd).symm, Bool.false_and]
  simp only [hasOpeningMark, hm, beq_false_of_ne (hne (d := '?') rfl),
    beq_false_of_ne (hne (d := ':') rfl), beq_false_of_ne (hne (d := '-') rfl)]
  exact Bool.or_eq_false_iff.mpr ⟨hp '-' rfl _, hp '.' rfl _⟩

namespace Scan

/-- A text without an opening mark begins a scalar. -/
theorem startsPlain_append (h : hasOpeningMark (c :: s) = false) (hl : isBlank c = false)
    (hb : isBreak c = false) (t : List Char) : startsPlain false c (s ++ t) = true := by
  by_cases hc : c = '?' ∨ c = ':' ∨ c = '-'
  · have he := endsWord_of_not_hasOpeningMark h hc t
    rcases hc with rfl | rfl | rfl
    · simp [startsPlain, he]
    · simp [startsPlain, he]
    · cases hst : s ++ t with
      | nil => rfl
      | cons d r =>
        rw [hst, endsWord, Bool.or_eq_false_iff] at he
        simp [startsPlain, he.1]
  · have hi : isIndicator c = false := by
      simp only [not_or] at hc
      simp only [hasOpeningMark, Bool.or_eq_false_iff] at h
      have hm := h.1.1.1
      simp at hm
      simp [isIndicator, hc, hm]
    simp [startsPlain, hl, hb, hi]

variable {z : Scan}

/-- Where no mark of a document stands, a scalar without a mark in front is plain. -/
theorem take_plain (hf : z.inFlow = false) (h : hasOpeningMark (c :: s) = false)
    (hl : isBlank c = false) (hb : isBreak c = false) (t : List Char)
    (hd : (z.place.column == 0 && isDocumentMark (c :: (s ++ t))) = false) :
    z.take c (s ++ t) = z.takePlain := by
  have hmark (d : Char) (hd : d = '?' ∨ d = ':' ∨ d = '-') : (c == d && endsWord (s ++ t)) = false := by
    by_cases hc : c = d
    · rw [endsWord_of_not_hasOpeningMark h (hc ▸ hd) t, Bool.and_false]
    · rw [beq_false_of_ne hc, Bool.false_and]
  unfold take
  simp only [hd, hf, startsPlain_append h hl hb t, hmark '?' (by simp), hmark ':' (by simp),
    hmark '-' (by simp), ne_of_not_hasOpeningMark h (d := '%') rfl,
    ne_of_not_hasOpeningMark h (d := '[') rfl,
    ne_of_not_hasOpeningMark h (d := ']') rfl, ne_of_not_hasOpeningMark h (d := '\x7b') rfl,
    ne_of_not_hasOpeningMark h (d := '\x7d') rfl, ne_of_not_hasOpeningMark h (d := ',') rfl,
    ne_of_not_hasOpeningMark h (d := '*') rfl, ne_of_not_hasOpeningMark h (d := '&') rfl,
    ne_of_not_hasOpeningMark h (d := '!') rfl, ne_of_not_hasOpeningMark h (d := '|') rfl,
    ne_of_not_hasOpeningMark h (d := '>') rfl, ne_of_not_hasOpeningMark h (d := '\'') rfl,
    ne_of_not_hasOpeningMark h (d := '"') rfl, Bool.and_false, Bool.false_and, Bool.false_or,
    Bool.false_eq_true, if_false, if_true]

end Scan
end Relabel.Yaml
