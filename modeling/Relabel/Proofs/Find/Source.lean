import Mathlib.Data.List.Basic
import Relabel.Find.Wildcard

/-!
# Find texts as regular expressions

The expression of a find text is put together from code words, one for each of its characters. In
legacy mode the word of a star is made of characters that are words of their own, but a bar stands
nowhere else in an expression without a backslash before it; in the other mode the same holds of
the star. So one look ahead tells where a word ends, and the find text can be read off its
expression.

* `groupedFrom`: the expression as it is written, with runs of literal characters escaped together.
* `firstOf`: the character that the first word of an expression stands for.
* `firstOf_sourceOf`: it is read off whatever comes behind the word.
* `source_append_injective`: expressions are put together part by part, and lose nothing.
-/

namespace Relabel.Find

variable {mode : Mode} {c d : Char} {s : List Char}

/-! ## Code words -/

theorem wildcard_cases (c : Char) :
    c = '^' ∨ c = '$' ∨ c = '?' ∨ c = '*' ∨ isWildcard c = false := by
  simp only [isWildcard, Bool.or_eq_false_iff, beq_eq_false_iff_ne]
  tauto

/-- The code word of a star. -/
def starWord : Mode → List Char
  | .legacy => ['^', '$', '|', '.', '+']
  | .anySequence => ['.', '*']

theorem sourceOf_star (mode : Mode) : sourceOf mode '*' = starWord mode := by cases mode <;> rfl

theorem sourceOf_atStart (mode : Mode) : sourceOf mode '^' = ['^'] := by cases mode <;> rfl

theorem sourceOf_atEnd (mode : Mode) : sourceOf mode '$' = ['$'] := by cases mode <;> rfl

theorem sourceOf_one (mode : Mode) : sourceOf mode '?' = ['.'] := by cases mode <;> rfl

theorem sourceOf_literal (mode : Mode) (h : isWildcard c = false) : sourceOf mode c = escape c := by
  unfold sourceOf
  rw [Piece.ofChar_of_not_isWildcard h]
  cases mode <;> rfl

/-- What a code word begins with. -/
theorem head?_sourceOf (h : (sourceOf mode c).head? = some d) :
    d = '\\' ∨ isMeta d = false ∨ d = '^' ∧ c = '^' ∨ d = '$' ∧ c = '$' ∨ d = '.' ∧ c = '?' ∨
      c = '*' ∧ (starWord mode).head? = some d := by
  rcases wildcard_cases c with rfl | rfl | rfl | rfl | hc
  · rw [sourceOf_atStart] at h
    cases h
    tauto
  · rw [sourceOf_atEnd] at h
    cases h
    tauto
  · rw [sourceOf_one] at h
    cases h
    tauto
  · rw [sourceOf_star] at h
    tauto
  · rw [sourceOf_literal mode hc, escape] at h
    split at h
    · cases h
      tauto
    · next hm =>
      cases h
      exact .inr (.inl (Bool.eq_false_iff.mpr hm))

theorem escape_ne_nil (c : Char) : escape c ≠ [] := by
  unfold escape
  split <;> exact List.cons_ne_nil _ _

theorem sourceOf_ne_nil (mode : Mode) (c : Char) : sourceOf mode c ≠ [] := by
  rcases wildcard_cases c with rfl | rfl | rfl | rfl | hc
  · cases mode <;> exact List.cons_ne_nil _ _
  · cases mode <;> exact List.cons_ne_nil _ _
  · cases mode <;> exact List.cons_ne_nil _ _
  · cases mode <;> exact List.cons_ne_nil _ _
  · rw [sourceOf_literal mode hc]
    exact escape_ne_nil c

/-- What an expression begins with. -/
theorem head?_flatMap_sourceOf {e : List Char} (h : s.flatMap (sourceOf mode) = d :: e) :
    ∃ c r, s = c :: r ∧ (sourceOf mode c).head? = some d := by
  cases s with
  | nil => cases h
  | cons c r =>
    refine ⟨c, r, rfl, ?_⟩
    rw [List.flatMap_cons] at h
    rw [← List.head?_append_of_ne_nil _ (sourceOf_ne_nil mode c), h, List.head?_cons]

/-! ## Reading words -/

/-- The character that the first word of an expression stands for, and what is left. -/
def firstOf (mode : Mode) (e : List Char) : Option (Char × List Char) :=
  if (starWord mode).isPrefixOf e then some ('*', e.drop (starWord mode).length) else
    match e with
    | [] => none
    | '\\' :: c :: r => some (c, r)
    | '.' :: r => some ('?', r)
    | c :: r => some (c, r)

/-- The two characters that tell the word of a star from others begin no expression. -/
theorem flatMap_sourceOf_ne {e : List Char} (hd : d = '|' ∨ d = '*') :
    s.flatMap (sourceOf mode) ≠ d :: e := by
  intro h
  obtain ⟨c, -, -, hc⟩ := head?_flatMap_sourceOf h
  have hword := head?_sourceOf hc
  rcases hd with rfl | rfl <;> cases mode <;> simp [starWord, isMeta] at hword

/-- Only an expression of a find text that begins with a star begins with the word of a star. -/
theorem not_starWord_prefix (hc : c ≠ '*') (s : List Char) :
    ¬ starWord mode <+: (c :: s).flatMap (sourceOf mode) := by
  rintro ⟨t, ht⟩
  cases mode with
  | legacy =>
    obtain ⟨_, _, ⟨⟩, hhead⟩ := head?_flatMap_sourceOf ht.symm
    obtain rfl : c = '^' := by simpa [hc, isMeta] using head?_sourceOf hhead
    -- Behind a caret and a dollar sign there would have to be a bar.
    have hrest : s.flatMap (sourceOf .legacy) = '$' :: '|' :: ('.' :: '+' :: t) :=
      (List.cons.inj ht).2.symm
    obtain ⟨c', s', rfl, hhead⟩ := head?_flatMap_sourceOf hrest
    obtain rfl : c' = '$' := by simpa [starWord, isMeta] using head?_sourceOf hhead
    exact flatMap_sourceOf_ne (.inl rfl) (List.cons.inj hrest).2
  | anySequence =>
    obtain ⟨_, _, ⟨⟩, hhead⟩ := head?_flatMap_sourceOf ht.symm
    obtain rfl : c = '?' := by simpa [hc, isMeta] using head?_sourceOf hhead
    exact flatMap_sourceOf_ne (.inr rfl) (List.cons.inj ht).2.symm

theorem firstOf_sourceOf (mode : Mode) (c : Char) (s : List Char) :
    firstOf mode ((c :: s).flatMap (sourceOf mode)) = some (c, s.flatMap (sourceOf mode)) := by
  unfold firstOf
  by_cases hstar : c = '*'
  · subst hstar
    rw [List.flatMap_cons, sourceOf_star, if_pos (by simp), List.drop_left]
  rw [if_neg (by simpa using not_starWord_prefix hstar s), List.flatMap_cons]
  rcases wildcard_cases c with rfl | rfl | rfl | rfl | hc
  · rw [sourceOf_atStart]
    rfl
  · rw [sourceOf_atEnd]
    rfl
  · rw [sourceOf_one]
    rfl
  · exact absurd rfl hstar
  · rw [sourceOf_literal mode hc, escape]
    by_cases hm : isMeta c = true
    · rw [if_pos hm]
      rfl
    · -- A character without a backslash before it stands for itself.
      rw [if_neg hm, List.singleton_append]
      split
      · next h => cases h
      · next h => exact absurd ((List.cons.inj h).1 ▸ rfl) hm
      · next h => exact absurd ((List.cons.inj h).1 ▸ rfl) hm
      · next h => rw [(List.cons.inj h).1, (List.cons.inj h).2]

/-- A find text can be read off its expression. -/
theorem flatMap_sourceOf_injective (mode : Mode) :
    Function.Injective (List.flatMap (sourceOf mode)) := by
  intro s
  induction s with
  | nil =>
    intro t h
    cases t with
    | nil => rfl
    | cons d t =>
      have hfirst := firstOf_sourceOf mode d t
      rw [← h] at hfirst
      cases mode <;> cases hfirst
  | cons c s ih =>
    intro t h
    have hfirst := firstOf_sourceOf mode c s
    rw [h] at hfirst
    cases t with
    | nil => cases mode <;> cases hfirst
    | cons d t =>
      rw [firstOf_sourceOf] at hfirst
      obtain ⟨rfl, hrest⟩ := Prod.mk.inj (Option.some.inj hfirst)
      rw [ih hrest.symm]

/-! ## Whole expressions -/

/-- The expression as it is written: literal characters are held back, and escaped together where
the next wildcard or the end of the text comes. -/
def groupedFrom (mode : Mode) (held : List Char) : List Char → List Char
  | [] => held.flatMap escape
  | c :: s =>
    if isWildcard c then held.flatMap escape ++ sourceOf mode c ++ groupedFrom mode [] s
    else groupedFrom mode (held ++ [c]) s

/-- It makes no difference how many characters are escaped together. -/
theorem groupedFrom_eq (mode : Mode) (held s : List Char) :
    groupedFrom mode held s = held.flatMap escape ++ s.flatMap (sourceOf mode) := by
  induction s generalizing held with
  | nil => rw [groupedFrom, List.flatMap_nil, List.append_nil]
  | cons c s ih =>
    unfold groupedFrom
    split
    · rw [ih, List.flatMap_nil, List.nil_append, List.flatMap_cons, List.append_assoc]
    · next hc =>
      rw [ih, List.flatMap_append, List.flatMap_singleton, List.flatMap_cons,
        sourceOf_literal mode (Bool.eq_false_iff.mpr hc), List.append_assoc]

theorem toList_source (mode : Mode) (find : String) :
    (source mode find).toList = find.toList.flatMap (sourceOf mode) :=
  String.toList_ofList

/-- The expression of a find text is that of its first part followed by that of its second,
wherever it is cut; literal characters may be escaped one by one or together. Different find texts
have different expressions. -/
theorem source_append_injective (mode : Mode) :
    (∀ a b : String, source mode (a ++ b) = source mode a ++ source mode b) ∧
      (∀ find : String, (source mode find).toList = groupedFrom mode [] find.toList) ∧
      Function.Injective (source mode) := by
  refine ⟨fun a b => ?_, fun find => ?_, fun a b h => ?_⟩
  · rw [← String.toList_inj, String.toList_append]
    simp only [toList_source, String.toList_append, List.flatMap_append]
  · rw [toList_source, groupedFrom_eq, List.flatMap_nil, List.nil_append]
  · have hlists := congrArg String.toList h
    rw [toList_source, toList_source] at hlists
    exact String.toList_inj.mp (flatMap_sourceOf_injective mode hlists)

/-- A caret, a dollar sign and a star have words that run into each other. -/
example : source .legacy "^$*" = "^$^$|.+" := by decide

end Relabel.Find
