import Relabel.Yaml.Token.Scan
import Relabel.Yaml.Scalar

/-!
# Lines of a file

What a reader meets behind the end of a line, and where it is then. A written file holds characters
only that can be shown, so that it is read as it stands; each of its lines begins with some spaces
and a letter, a digit, an underscore or a hyphen.

* `readable?_ofList`: a text of characters that can be shown is read as it stands.
* `Place.column_afterAll`: columns are counted up to the end of a line.
* `Next`: what comes behind the end of a line.
* `Scan.skipGap_line`: the reader goes on to the next line.
-/

namespace Relabel.Yaml

variable {c : Char} {s t : List Char}

/-! ## Characters -/

/-- A blank that can be shown is a space. -/
theorem eq_space_of_isBlank (h : isPrintable c = true) (hb : isBlank c = true) : c = ' ' := by
  have hb : c = ' ' ∨ c = '\t' := by simpa [isBlank] using hb
  rcases hb with rfl | rfl
  · rfl
  · exact absurd h (by decide)

theorem isAllowed_of_isPrintable (h : isPrintable c = true) : isAllowed c = true := by
  simp only [isPrintable, isAllowed, Bool.or_eq_true, Bool.and_eq_true, beq_iff_eq,
    decide_eq_true_eq] at h ⊢
  omega

/-- All characters can be shown. -/
def Shown (s : List Char) : Prop := ∀ c ∈ s, isPrintable c = true

theorem shown_of_all {s : List Char} (h : s.all isPrintable = true) : Shown s :=
  List.all_eq_true.mp h

@[simp] theorem shown_nil : Shown [] := nofun

@[simp] theorem shown_cons : Shown (c :: s) ↔ isPrintable c = true ∧ Shown s :=
  List.forall_mem_cons

@[simp] theorem shown_append : Shown (s ++ t) ↔ Shown s ∧ Shown t :=
  List.forall_mem_append

/-- A text that can be shown has no breaks that are read as others. -/
theorem unifyBreaks_eq (h : Shown s) : unifyBreaks s = s := by
  induction s with
  | nil => rfl
  | cons c s ih =>
    obtain ⟨hc, hs⟩ := shown_cons.mp h
    have hr : c ≠ '\r' := by rintro rfl; exact absurd hc (by decide)
    have hn : c ≠ '\u0085' := by rintro rfl; exact absurd hc (by decide)
    rw [unifyBreaks, ih hs]
    · simp [hr, hn]
    · rintro _ rfl
      exact absurd rfl hr

/-- A text of characters that can be shown is read as it stands. -/
theorem readable?_ofList (h : Shown s) : readable? (String.ofList s) = some s := by
  have ha : s.all isAllowed = true :=
    List.all_eq_true.mpr fun c hc => isAllowed_of_isPrintable (h c hc)
  rw [readable?, String.toList_ofList]
  simp only [ha, if_true]
  rw [unifyBreaks_eq h]

/-- Characters of words are letters, digits and a few marks between them. -/
theorem toNat_of_isWordChar (h : isWordChar c = true) : 0x2D ≤ c.toNat ∧ c.toNat ≤ 0x7A := by
  delta isWordChar Char.isAlphanum Char.isAlpha Char.isUpper Char.isLower Char.isDigit at h
  simp only [Bool.or_eq_true, Bool.and_eq_true, decide_eq_true_eq, beq_iff_eq, UInt32.le_iff_toNat_le,
    ge_iff_le] at h
  change ((((65 ≤ c.toNat ∧ c.toNat ≤ 90) ∨ (97 ≤ c.toNat ∧ c.toNat ≤ 122)) ∨
    (48 ≤ c.toNat ∧ c.toNat ≤ 57)) ∨ c = '-') ∨ c = '_' at h
  rcases h with (h | rfl) | rfl
  · omega
  · decide
  · decide

theorem isPrintable_of_isWordChar (h : isWordChar c = true) : isPrintable c = true := by
  have := toNat_of_isWordChar h
  simp only [isPrintable, Bool.or_eq_true, Bool.and_eq_true, beq_iff_eq, decide_eq_true_eq]
  omega

theorem ne_of_isWordChar {d : Char} (h : isWordChar c = true) (hd : isWordChar d = false) :
    c ≠ d := by
  rintro rfl
  rw [h] at hd
  cases hd

theorem isBreak_of_isWordChar (h : isWordChar c = true) : isBreak c = false := by
  simp only [isBreak, Bool.or_eq_false_iff, beq_eq_false_iff_ne]
  exact ⟨⟨ne_of_isWordChar h (by decide), ne_of_isWordChar h (by decide)⟩,
    ne_of_isWordChar h (by decide)⟩

theorem isBlank_of_isWordChar (h : isWordChar c = true) : isBlank c = false := by
  simp only [isBlank, Bool.or_eq_false_iff, beq_eq_false_iff_ne]
  exact ⟨ne_of_isWordChar h (by decide), ne_of_isWordChar h (by decide)⟩

/-! ## Places -/

namespace Place

variable {p : Place}

@[simp] theorem afterAll_nil (p : Place) : p.afterAll [] = p := rfl

@[simp] theorem afterAll_cons (p : Place) (c : Char) (s : List Char) :
    p.afterAll (c :: s) = (p.after c).afterAll s := rfl

/-- Places move on over one text after the other. -/
@[simp] theorem afterAll_append (p : Place) (s t : List Char) :
    p.afterAll (s ++ t) = (p.afterAll s).afterAll t :=
  List.foldl_append

/-- A break leads to the first column of the next line. -/
theorem after_of_isBreak (h : isBreak c = true) (p : Place) :
    p.after c = ⟨p.index + 1, p.line + 1, 0⟩ :=
  if_pos h

theorem after_of_not_isBreak (h : isBreak c = false) (p : Place) :
    p.after c = ⟨p.index + 1, p.line, p.column + 1⟩ := by
  rw [after, h]
  rfl

/-- Up to the end of a line the characters are counted. -/
theorem afterAll_of_line (h : ∀ c ∈ s, isBreak c = false) (p : Place) :
    p.afterAll s = ⟨p.index + s.length, p.line, p.column + s.length⟩ := by
  induction s generalizing p with
  | nil => rfl
  | cons c s ih =>
    obtain ⟨hc, hs⟩ := List.forall_mem_cons.mp h
    rw [afterAll_cons, after_of_not_isBreak hc, ih hs, List.length_cons, Nat.add_assoc p.index,
      Nat.add_assoc p.column, Nat.add_comm 1]

theorem column_afterAll_spaces (p : Place) (n : Nat) :
    (p.afterAll (spaces n)).column = p.column + n := by
  rw [afterAll_of_line]
  · simp [spaces]
  · intro c hc
    rw [List.eq_of_mem_replicate hc]
    rfl

/-- Behind a line the column is what the next one is indented by. -/
theorem column_afterAll_line (p : Place) (s : List Char) (n : Nat) :
    (p.afterAll (s ++ '\n' :: spaces n)).column = n := by
  rw [afterAll_append, afterAll_cons, column_afterAll_spaces]
  exact Nat.zero_add n

end Place

/-! ## The next line -/

/-- What comes behind the end of a line: the column in which the next line begins, and the file from
there on. -/
structure Next where
  indent : Nat
  body : List Char

namespace Next

/-- The file from the line end on. -/
def text (n : Next) : List Char := spaces n.indent ++ n.body

/-- The line begins with the character of a word, or the file has ended. -/
inductive Regular : Next → Prop
  | line {k : Nat} {c : Char} {r : List Char} : isWordChar c = true → Regular ⟨k, c :: r⟩
  | ended : Regular ⟨0, []⟩

end Next

theorem spaces_succ (n : Nat) : spaces (n + 1) = ' ' :: spaces n := rfl

@[simp] theorem shown_spaces (n : Nat) : Shown (spaces n) := by
  intro c hc
  rw [List.eq_of_mem_replicate hc]
  rfl

/-- The spaces that open a line within a text. -/
def lineIndent (n : Nat) (opened : Bool) : List Char := if opened then spaces n else []

@[simp] theorem shown_lineIndent (n : Nat) (opened : Bool) : Shown (lineIndent n opened) := by
  cases opened
  · exact shown_nil
  · exact shown_spaces n

namespace Scan

variable {inFlow allowed : Bool} {p : Place}

/-- Spaces before something are skipped. -/
theorem skipGap_spaces (n : Nat) (s : List Char) (p : Place) :
    skipGap inFlow allowed false p (spaces n ++ s) =
      skipGap inFlow allowed false (p.afterAll (spaces n)) s := by
  induction n generalizing p with
  | zero => rfl
  | succ n ih =>
    rw [spaces_succ, List.cons_append, skipGap]
    exact ih (p.after ' ')

/-- Nothing else is skipped. -/
theorem skipGap_stop (hb : isBreak c = false) (hl : isBlank c = false) (hm : c ≠ '#')
    (ho : c ≠ byteOrderMark) (s : List Char) (p : Place) :
    skipGap inFlow allowed false p (c :: s) = ⟨allowed, c :: s, p⟩ := by
  have hl : c ≠ ' ' ∧ c ≠ '\t' := by simpa [isBlank] using hl
  simp [skipGap, hb, hm, ho, hl]

theorem skipGap_of_isWordChar (h : isWordChar c = true) (s : List Char) (p : Place) :
    skipGap inFlow allowed false p (c :: s) = ⟨allowed, c :: s, p⟩ :=
  skipGap_stop (isBreak_of_isWordChar h) (isBlank_of_isWordChar h)
    (ne_of_isWordChar h (by decide)) (ne_of_isWordChar h (by decide)) s p

/-- What comes next is found behind its indentation. -/
theorem skipGap_next {n : Next} (h : n.Regular) (p : Place) :
    skipGap inFlow allowed false p n.text =
      ⟨allowed, n.body, p.afterAll (spaces n.indent)⟩ := by
  rw [Next.text, skipGap_spaces]
  cases h with
  | line hc => exact skipGap_of_isWordChar hc _ _
  | ended => rfl

/-- The reader goes on to the next line, where a key may begin. -/
theorem skipGap_line {n : Next} (h : n.Regular) (p : Place) :
    skipGap false allowed false p ('\n' :: n.text) =
      ⟨true, n.body, p.afterAll ('\n' :: spaces n.indent)⟩ := by
  rw [skipGap, if_pos (by decide), Bool.not_false, Bool.or_true, skipGap_next h]
  rfl

end Scan
end Relabel.Yaml
