import Relabel.Find.Pattern
import Relabel.Proofs.Find.Span

/-!
# Replacing what a find text fits

What a find text asks for is said once more, on its characters (`Fits`). In the mode in which `*`
is any run, the name with its matches replaced is the name with the longest fits replaced, from
the left (`apply_anySequence`).
-/

namespace Relabel.Find

/-- The characters of `name` from place `i` up to place `j` are what the find text asks for: `^` is
the start of the name, `$` its end, `?` a character that does not end a line, `*` any number of
those, and every other character is itself. -/
inductive Fits (name : List Char) : List Char → Nat → Nat → Prop
  | nil : i ≤ name.length → Fits name [] i i
  | start : Fits name find 0 j → Fits name ('^' :: find) 0 j
  | stop : Fits name find name.length j → Fits name ('$' :: find) name.length j
  | single : InLine name i → Fits name find (i + 1) j → Fits name ('?' :: find) i j
  | star : i ≤ k → OneLine name i k → Fits name find k j → Fits name ('*' :: find) i j
  | literal : c ∉ ['^', '$', '?', '*'] → name[i]? = some c → Fits name find (i + 1) j →
    Fits name (c :: find) i j

variable {name : List Char} {i j : Nat}

/-! ## Find texts and pieces -/

theorem isWildcard_eq_false_iff {c : Char} :
    isWildcard c = false ↔ c ∉ ['^', '$', '?', '*'] := by
  simp [isWildcard, and_assoc]

/-- What a find text asks for is what its pieces ask for. -/
theorem fits_iff_occurs {find : List Char} :
    Fits name find i j ↔ Occurs name (find.map Piece.ofChar) i j := by
  constructor
  · intro h
    induction h with
    | nil h => exact .nil h
    | start _ ih => exact .atStart ih
    | stop _ ih => exact .atEnd ih
    | single h _ ih => exact .one h ih
    | star hk hl _ ih => exact .run hk hl ih
    | @literal c i _ _ hc h _ ih =>
      rw [List.map_cons, Piece.ofChar_of_not_isWildcard (isWildcard_eq_false_iff.mpr hc)]
      exact .char h ih
  · intro h
    induction find generalizing i with
    | nil => cases h with | nil h => exact .nil h
    | cons c find ih =>
      rw [List.map_cons] at h
      cases hw : isWildcard c with
      | false =>
        rw [Piece.ofChar_of_not_isWildcard hw] at h
        obtain ⟨hc, h⟩ := Occurs.char_iff.mp h
        exact .literal (isWildcard_eq_false_iff.mp hw) hc (ih h)
      | true =>
        have hc : ((c = '^' ∨ c = '$') ∨ c = '?') ∨ c = '*' := by simpa [isWildcard] using hw
        obtain ((rfl | rfl) | rfl) | rfl := hc
        · obtain ⟨rfl, h⟩ := Occurs.atStart_iff.mp h
          exact .start (ih h)
        · obtain ⟨rfl, h⟩ := Occurs.atEnd_iff.mp h
          exact .stop (ih h)
        · obtain ⟨hi, h⟩ := Occurs.one_iff.mp h
          exact .single hi (ih h)
        · cases h with
          | run hk hl h => exact .star hk hl (ih h)

/-! ## Alternatives -/

theorem zipWith_or_none {l m : Lengths} (h : l.length = m.length) :
    List.zipWith Option.or l (m.map fun _ => none) = l := by
  induction l generalizing m with
  | nil => rfl
  | cons e l ih =>
    cases m with
    | nil => cases h
    | cons e' m => rw [List.map_cons, List.zipWith_cons_cons, Option.or_none, ih (Nat.succ.inj h)]

theorem firstLengths_singleton {ps : List Piece} : firstLengths [ps] name = lengths ps name :=
  zipWith_or_none (by simp [length_lengths, emptyMatches])

/-! ## Patterns -/

namespace Pattern

section

variable [Engine] {find : String} {mode : Mode}

theorem eq_of_compile {p : Pattern} (h : compile find mode = .ok p) : p = ⟨find, mode⟩ := by
  unfold compile at h
  split at h
  · next he =>
    cases h
    rw [String.isEmpty_iff.mp he]
    rfl
  · split at h
    · cases h
    · cases h
      rfl

/-- A find text that the engine takes is compiled. -/
theorem compile_of_taken (h : Engine.refusal? (Find.source mode find) = none) :
    compile find mode = .ok ⟨find, mode⟩ := by
  unfold compile
  split
  · next he =>
    rw [String.isEmpty_iff.mp he]
    rfl
  · rw [h]

theorem compile_of_short (mode : Mode) (h : find.toList.length ≤ 1000) :
    compile find mode = .ok ⟨find, mode⟩ :=
  compile_of_taken (Engine.takes_short mode find h)

/-- Only the engine's refusal keeps a find text from being compiled. -/
theorem compile_of_refused {cause : String} (hne : find ≠ "")
    (h : Engine.refusal? (Find.source mode find) = some cause) :
    compile find mode = .error (.patternCompile find cause) := by
  have hempty : ¬ find.isEmpty = true := by simpa using hne
  rw [compile, if_neg hempty, h]

end

theorem parts_of_ne {find : String} {mode : Mode} (hne : find ≠ "") :
    parts ⟨find, mode⟩ name = Find.parts (branches mode find.toList) name := by
  have : find.isEmpty = false := by simpa using hne
  simp [parts, isEmpty, this]

/-- Replacing by a pattern is replacing the spans of its table. -/
theorem apply_eq_splice {M : Nat → Nat → Prop} {find name : String} {mode : Mode}
    (hne : find ≠ "") (hM : ∀ i j, M i j → i ≤ j ∧ j ≤ name.toList.length)
    (h : Tabulates M name.toList.length 0
      (firstLengths (branches mode find.toList) name.toList)) :
    ∃ spans, Finds M 0 false spans ∧ ∀ r : String, apply ⟨find, mode⟩ name r =
      String.ofList (splice name.toList r.toList 0 spans) := by
  have htext : (Find.parts (branches mode find.toList) name.toList).flatMap Part.text =
      name.toList.drop 0 := text_cut h (Nat.zero_add _)
  refine ⟨_, finds_cut hM h (Nat.zero_add _) (Nat.zero_le _) (.inl rfl), fun r => ?_⟩
  rw [apply, parts_of_ne hne, replaced_eq_splice htext]
  rfl

/-- Where `*` is any run, the longest fits of the find text are replaced, from the left; which
these are does not depend on the replacement. -/
theorem apply_anySequence [Engine] {find : String} {p : Pattern} (hne : find ≠ "")
    (h : compile find .anySequence = .ok p) (name : String) :
    ∃ spans, Finds (Fits name.toList find.toList) 0 false spans ∧
      (∀ spans', Finds (Fits name.toList find.toList) 0 false spans' → spans' = spans) ∧
      ∀ r : String, p.apply name r = String.ofList (splice name.toList r.toList 0 spans) := by
  obtain rfl := eq_of_compile h
  have htable : Tabulates (Fits name.toList find.toList) name.toList.length 0
      (firstLengths (branches .anySequence find.toList) name.toList) := by
    rw [branches, firstLengths_singleton]
    exact tabulates_lengths.congr fun i j => fits_iff_occurs.symm
  have hbound : ∀ i j, Fits name.toList find.toList i j → i ≤ j ∧ j ≤ name.toList.length := by
    intro i j h
    have h := fits_iff_occurs.mp h
    exact ⟨h.le, h.le_length⟩
  obtain ⟨spans, hspans, happly⟩ := apply_eq_splice hne hbound htable
  exact ⟨spans, hspans, fun _ h' => h'.unique hspans, happly⟩

attribute [local instance] Engine.boundless in
theorem apply_anySequence_two_lines :
    "a*b?" ≠ "" ∧ compile "a*b?" .anySequence = .ok ⟨"a*b?", .anySequence⟩ ∧
      ∃ spans, Finds (Fits "xaabbbab\nabc".toList "a*b?".toList) 0 false spans ∧
        (∀ spans', Finds (Fits "xaabbbab\nabc".toList "a*b?".toList) 0 false spans' →
          spans' = spans) ∧
        ∀ r : String, apply ⟨"a*b?", .anySequence⟩ "xaabbbab\nabc" r =
          String.ofList (splice "xaabbbab\nabc".toList r.toList 0 spans) :=
  ⟨by decide, rfl, apply_anySequence (by decide) rfl "xaabbbab\nabc"⟩

example : apply ⟨"a*b?", .anySequence⟩ "xaabbbab\nabc" "$1" = "x$1b\n$1" := by decide

end Pattern
end Relabel.Find
