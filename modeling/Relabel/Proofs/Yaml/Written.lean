import Relabel.Proofs.Yaml.Block
import Relabel.Proofs.Yaml.Plain

/-!
# Written forms of texts

What the style of a text says of the text, and which characters its written form holds.

* `plainText_of_writtenStyle`, `quotable_of_writtenStyle`, `linesText_of_writtenStyle`: a text is
  written in a style only if it can be read back from it.
* `shown_written`: the written form holds characters only that can be shown.
-/

namespace Relabel.Yaml

variable {c : Char} {s : List Char} {n : Nat}

/-! ## Styles -/

/-- A text that can be read back from a plain scalar. -/
structure PlainText (s : List Char) : Prop where
  inner : PlainInner s
  first : ∀ c ∈ s.head?, isBlank c = false
  mark : hasOpeningMark s = false
  other : looksOther s = false

/-- An empty text is never written plain. -/
theorem PlainText.ne_nil (h : PlainText s) : s ≠ [] := by
  rintro rfl
  exact absurd h.other (by decide)

theorem shown_of_traits (h : (Traits.of s).unprintable = false) : Shown s := by
  intro c hc
  have := List.any_eq_false.mp h c hc
  simpa using this

theorem writtenStyle_cases (s : List Char) :
    (writtenStyle s = .plain ∧ looksOther s = false ∧ (Traits.of s).allowsPlain = true) ∨
      (writtenStyle s = .single ∧ s.contains '\n' = false ∧ (Traits.of s).allowsSingle = true) ∨
      (writtenStyle s = .literal ∧ s.contains '\n' = true ∧ (Traits.of s).allowsLiteral = true) ∨
      writtenStyle s = .double := by
  unfold writtenStyle
  dsimp only
  cases s.contains '\n' with
  | true =>
    rw [if_pos rfl]
    cases (Traits.of s).allowsLiteral <;> simp
  | false =>
    rw [if_neg (by decide)]
    cases looksOther s <;> cases (Traits.of s).allowsPlain <;>
      cases (Traits.of s).allowsSingle <;> simp

/-- What is written plain can be read plain. -/
theorem plainText_of_writtenStyle (h : writtenStyle s = .plain) : PlainText s := by
  obtain ⟨-, ho, ht⟩ : writtenStyle s = .plain ∧ looksOther s = false ∧
      (Traits.of s).allowsPlain = true := by
    rcases writtenStyle_cases s with h' | ⟨h', -⟩ | ⟨h', -⟩ | h'
    · exact h'
    all_goals rw [h] at h'; cases h'
  simp only [Traits.allowsPlain, Bool.not_eq_true', Bool.or_eq_false_iff] at ht
  obtain ⟨⟨⟨⟨⟨hl, hb⟩, -⟩, -⟩, hu⟩, hm⟩ := ht
  have hp := shown_of_traits hu
  simp only [Traits.of, Bool.or_eq_false_iff] at hl hm hb
  refine ⟨⟨fun c hc => ⟨hp c hc, ?_⟩, hm.2, ?_⟩, fun c hc => ?_, hm.1, ho⟩
  · simpa using List.any_eq_false.mp hb c hc
  · intro hs
    rw [hs] at hl
    exact absurd hl.2 (by decide)
  · cases hbl : isBlank c with
    | false => rfl
    | true =>
      obtain rfl := eq_space_of_isBlank (hp c (List.mem_of_mem_head? hc)) hbl
      rw [Option.mem_def.mp hc] at hl
      exact absurd hl.1 (by decide)

/-- What is written in single quotes can be read between them. -/
theorem quotable_of_writtenStyle (h : writtenStyle s = .single) : Quotable s := by
  obtain ⟨-, hn, ht⟩ : writtenStyle s = .single ∧ s.contains '\n' = false ∧
      (Traits.of s).allowsSingle = true := by
    rcases writtenStyle_cases s with ⟨h', -⟩ | h' | ⟨h', -⟩ | h'
    · rw [h] at h'; cases h'
    · exact h'
    all_goals rw [h] at h'; cases h'
  simp only [Traits.allowsSingle, Bool.not_eq_true', Bool.or_eq_false_iff] at ht
  obtain ⟨⟨ha, hb⟩, hu⟩ := ht
  refine ⟨fun c hc => ⟨?_, shown_of_traits hu c hc⟩, ha, hb⟩
  rintro rfl
  simp [hc] at hn

/-- A text that is written as a block is not empty and can be shown. -/
theorem linesText_of_writtenStyle (h : writtenStyle s = .literal) :
    s ≠ [] ∧ Shown s := by
  obtain ⟨-, hn, ht⟩ : writtenStyle s = .literal ∧ s.contains '\n' = true ∧
      (Traits.of s).allowsLiteral = true := by
    rcases writtenStyle_cases s with ⟨h', -⟩ | ⟨h', -⟩ | h' | h'
    · rw [h] at h'; cases h'
    · rw [h] at h'; cases h'
    · exact h'
    · rw [h] at h'; cases h'
  simp only [Traits.allowsLiteral, Bool.not_eq_true', Bool.or_eq_false_iff] at ht
  refine ⟨?_, shown_of_traits ht.2⟩
  rintro rfl
  cases hn

theorem writtenStyle_ne_folded (s : List Char) : writtenStyle s ≠ .folded := by
  rcases writtenStyle_cases s with ⟨h, -⟩ | ⟨h, -⟩ | ⟨h, -⟩ | h <;> rw [h] <;> decide

/-! ## Characters -/

theorem shown_quotedLines (h : Shown s) (opened : Bool) : Shown (quotedLines n opened s) := by
  induction s generalizing opened with
  | nil => exact shown_lineIndent n opened
  | cons c s ih =>
    obtain ⟨hc, hs⟩ := shown_cons.mp h
    cases hb : isBreak c with
    | true =>
      rw [quotedLines_of_isBreak _ _ hb]
      exact shown_cons.mpr ⟨hc, ih hs true⟩
    | false =>
      rw [quotedLines_of_not_isBreak _ _ hb, shown_append, shown_append]
      refine ⟨⟨shown_lineIndent n opened, ?_⟩, ih hs false⟩
      split <;> simp [hc]

theorem shown_blockText (h : Shown s) (opened : Bool) : Shown (blockText n opened s) := by
  induction s generalizing opened with
  | nil => exact shown_nil
  | cons c s ih =>
    obtain ⟨hc, hs⟩ := shown_cons.mp h
    cases hb : isBreak c with
    | true =>
      rw [blockText_of_isBreak _ _ hb]
      exact shown_cons.mpr ⟨hc, ih hs true⟩
    | false =>
      rw [blockText_of_not_isBreak _ _ hb, shown_append, shown_cons]
      exact ⟨shown_lineIndent n opened, hc, ih hs false⟩

theorem shown_escaped (c : Char) : Shown (escaped c) := by
  rcases escaped_cases c with ⟨he, -, -, -, hp⟩ | ⟨e, he, hr⟩
  · simp [he, hp]
  · rw [he]
    exact shown_cons.mpr ⟨rfl, fun d hd => (hr.chars d hd).1⟩

theorem shown_flatMap_escaped (s : List Char) : Shown (s.flatMap escaped) := by
  intro c hc
  obtain ⟨d, -, hd⟩ := List.mem_flatMap.mp hc
  exact shown_escaped d c hd

theorem shown_blockSigns (s : List Char) : Shown (blockSigns s) := by
  rw [blockSigns_eq]
  cases s.head?.any isLoose <;> cases chompingOf s <;> exact shown_of_all (by decide)

/-- A file holds characters only that can be shown. -/
theorem shown_written (n : Nat) (s : List Char) : Shown (written n s) := by
  unfold written
  split
  · next h => exact fun c hc => ((plainText_of_writtenStyle h).inner.chars c hc).1
  · next h =>
    have hq : Shown s := fun c hc => ((quotable_of_writtenStyle h).chars c hc).2
    simp only [List.cons_append, shown_cons, shown_append]
    exact ⟨rfl, shown_quotedLines hq false, rfl, shown_nil⟩
  · simp only [List.cons_append, shown_cons, shown_append]
    exact ⟨rfl, shown_flatMap_escaped s, rfl, shown_nil⟩
  · next h =>
    simp only [List.cons_append, shown_cons, shown_append]
    exact ⟨rfl, shown_blockSigns s, rfl, shown_blockText (linesText_of_writtenStyle h).2 true⟩
  · next h => exact absurd h (writtenStyle_ne_folded s)

end Relabel.Yaml
