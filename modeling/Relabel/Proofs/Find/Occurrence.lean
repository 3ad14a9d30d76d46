import Relabel.Find.Match

/-!
# Occurrences

Where the pieces of a pattern stand in a name, said without a search: the characters between two
places of the name are split among the pieces in their order (`Occurs`). Runs may take any number
of characters, so that there may be many occurrences from one place.

The pieces settle what may come later only through the place they are at, hence an occurrence can
be moved to the right without losing its end (`Occurs.later`). That is why taking as many
characters as possible for each run in turn gives the longest occurrence.
-/

namespace Relabel.Find

/-- At place `i` stands a character that does not end a line. -/
def InLine (name : List Char) (i : Nat) : Prop := ∃ c, name[i]? = some c ∧ c ≠ '\n'

/-- No line ends from place `i` up to place `j`. -/
def OneLine (name : List Char) (i j : Nat) : Prop := ∀ m, i ≤ m → m < j → InLine name m

/-- The characters of `name` from place `i` up to place `j` are split among the pieces, each piece
taking what it asks for. -/
inductive Occurs (name : List Char) : List Piece → Nat → Nat → Prop
  | nil : i ≤ name.length → Occurs name [] i i
  | char : name[i]? = some c → Occurs name ps (i + 1) j → Occurs name (.char c :: ps) i j
  | one : InLine name i → Occurs name ps (i + 1) j → Occurs name (.one :: ps) i j
  | run : i ≤ k → OneLine name i k → Occurs name ps k j → Occurs name (.run :: ps) i j
  | many : i < k → OneLine name i k → Occurs name ps k j → Occurs name (.many :: ps) i j
  | atStart : Occurs name ps 0 j → Occurs name (.atStart :: ps) 0 j
  | atEnd : Occurs name ps name.length j → Occurs name (.atEnd :: ps) name.length j

/-- `M` holds from `i` to `j` and to no place behind `j`. -/
def Longest (M : Nat → Nat → Prop) (i j : Nat) : Prop := M i j ∧ ∀ k, M i k → k ≤ j

variable {name : List Char} {ps qs : List Piece} {i j k : Nat}

/-! ## Places in a line -/

theorem InLine.lt_length (h : InLine name i) : i < name.length := by
  obtain ⟨c, hc, -⟩ := h
  exact (List.getElem?_eq_some_iff.mp hc).1

theorem InLine.iff_ne {c : Char} (h : name[i]? = some c) : InLine name i ↔ c ≠ '\n' := by
  constructor
  · rintro ⟨d, hd, hne⟩
    cases h.symm.trans hd
    exact hne
  · exact fun hne => ⟨c, h, hne⟩

namespace OneLine

theorem refl : OneLine name i i := fun _ h1 h2 => absurd (Nat.lt_of_le_of_lt h1 h2) (Nat.lt_irrefl i)

/-- A part of a line is in one line. -/
theorem drop (h : OneLine name i k) (hj : i ≤ j) : OneLine name j k :=
  fun m h1 h2 => h m (Nat.le_trans hj h1) h2

theorem cons (h : InLine name i) (hs : OneLine name (i + 1) j) : OneLine name i j := by
  intro m h1 h2
  rcases Nat.eq_or_lt_of_le h1 with rfl | h1
  · exact h
  · exact hs m h1 h2

theorem head (h : OneLine name i j) (hij : i < j) : InLine name i := h i (Nat.le_refl i) hij

end OneLine

/-! ## Bounds -/

namespace Occurs

/-- An occurrence does not end before it begins. -/
theorem le (h : Occurs name ps i j) : i ≤ j := by
  induction h with
  | nil => exact Nat.le_refl _
  | char _ _ ih | one _ _ ih => exact Nat.le_of_succ_le ih
  | run hk _ _ ih => exact Nat.le_trans hk ih
  | many hk _ _ ih => exact Nat.le_trans (Nat.le_of_lt hk) ih
  | atStart _ ih | atEnd _ ih => exact ih

theorem le_length (h : Occurs name ps i j) : j ≤ name.length := by
  induction h with
  | nil h => exact h
  | char _ _ ih | one _ _ ih | run _ _ _ ih | many _ _ _ ih | atStart _ ih | atEnd _ ih => exact ih

/-! ## One place at a time -/

theorem char_iff {c : Char} :
    Occurs name (.char c :: ps) i j ↔ name[i]? = some c ∧ Occurs name ps (i + 1) j := by
  constructor
  · rintro (_ | ⟨hc, h⟩)
    exact ⟨hc, h⟩
  · exact fun h => .char h.1 h.2

theorem one_iff : Occurs name (.one :: ps) i j ↔ InLine name i ∧ Occurs name ps (i + 1) j := by
  constructor
  · rintro (_ | _ | ⟨hc, h⟩)
    exact ⟨hc, h⟩
  · exact fun h => .one h.1 h.2

/-- A run takes nothing, or one more character. -/
theorem run_iff : Occurs name (.run :: ps) i j ↔
    Occurs name ps i j ∨ InLine name i ∧ Occurs name (.run :: ps) (i + 1) j := by
  constructor
  · intro h
    cases h with
    | run hk hl h =>
      rcases Nat.eq_or_lt_of_le hk with rfl | hk
      · exact .inl h
      · exact .inr ⟨hl.head hk, .run hk (hl.drop (Nat.le_succ i)) h⟩
  · rintro (h | ⟨hi, h⟩)
    · exact .run (Nat.le_refl i) .refl h
    · cases h with
      | run hk hl h => exact .run (Nat.le_of_succ_le hk) (.cons hi hl) h

/-- One character is taken at least, and more are taken as they come. -/
theorem many_iff : Occurs name (.many :: ps) i j ↔
    InLine name i ∧ (Occurs name ps (i + 1) j ∨ Occurs name (.many :: ps) (i + 1) j) := by
  constructor
  · intro h
    cases h with
    | many hk hl h =>
      refine ⟨hl.head hk, ?_⟩
      rcases Nat.eq_or_lt_of_le (Nat.succ_le_of_lt hk) with rfl | hk'
      · exact .inl h
      · exact .inr (.many hk' (hl.drop (Nat.le_succ i)) h)
  · rintro ⟨hi, h | h⟩
    · exact .many (Nat.lt_succ_self i) (.cons hi .refl) h
    · cases h with
      | many hk hl h => exact .many (Nat.lt_of_succ_lt hk) (.cons hi hl) h

/-- What is asked for at the start of a name is there at place 0 and nowhere else. -/
theorem atStart_iff : Occurs name (.atStart :: ps) i j ↔ i = 0 ∧ Occurs name ps i j := by
  constructor
  · intro h
    cases h with
    | atStart h => exact ⟨rfl, h⟩
  · rintro ⟨rfl, h⟩
    exact .atStart h

theorem atEnd_iff : Occurs name (.atEnd :: ps) i j ↔ i = name.length ∧ Occurs name ps i j := by
  constructor
  · intro h
    cases h with
    | atEnd h => exact ⟨rfl, h⟩
  · rintro ⟨rfl, h⟩
    exact .atEnd h

/-- At least one character is one character and then any number of them. -/
theorem many_iff_one_run :
    Occurs name (.many :: ps) i j ↔ Occurs name (.one :: .run :: ps) i j := by
  rw [one_iff]
  constructor
  · intro h
    cases h with
    | many hk hl h => exact ⟨hl.head hk, .run hk (hl.drop (Nat.le_succ i)) h⟩
  · rintro ⟨hi, h⟩
    cases h with
    | run hk hl h => exact .many hk (.cons hi hl) h

theorem append_iff :
    Occurs name (ps ++ qs) i j ↔ ∃ k, Occurs name ps i k ∧ Occurs name qs k j := by
  constructor
  · intro h
    induction ps generalizing i with
    | nil => exact ⟨i, .nil (Nat.le_trans h.le h.le_length), h⟩
    | cons p ps ih =>
      cases h with
      | char hc h => obtain ⟨k, h1, h2⟩ := ih h; exact ⟨k, .char hc h1, h2⟩
      | one hc h => obtain ⟨k, h1, h2⟩ := ih h; exact ⟨k, .one hc h1, h2⟩
      | run hk hl h => obtain ⟨k, h1, h2⟩ := ih h; exact ⟨k, .run hk hl h1, h2⟩
      | many hk hl h => obtain ⟨k, h1, h2⟩ := ih h; exact ⟨k, .many hk hl h1, h2⟩
      | atStart h => obtain ⟨k, h1, h2⟩ := ih h; exact ⟨k, .atStart h1, h2⟩
      | atEnd h => obtain ⟨k, h1, h2⟩ := ih h; exact ⟨k, .atEnd h1, h2⟩
  · rintro ⟨k, h1, h2⟩
    induction h1 with
    | nil => exact h2
    | char hc _ ih => exact .char hc (ih h2)
    | one hc _ ih => exact .one hc (ih h2)
    | run hk hl _ ih => exact .run hk hl (ih h2)
    | many hk hl _ ih => exact .many hk hl (ih h2)
    | atStart _ ih => exact .atStart (ih h2)
    | atEnd _ ih => exact .atEnd (ih h2)

/-! ## Later starts -/

/-- Of two occurrences, the one that starts later can be had with an end no earlier than that of
the other. Where the two meet in a run, the later one goes on with the rest of the earlier one. -/
theorem later {i' j' : Nat} (h : Occurs name ps i j) (h' : Occurs name ps i' j') (hi : i ≤ i') :
    ∃ k, j ≤ k ∧ Occurs name ps i' k := by
  induction h generalizing i' j' with
  | nil =>
    cases h' with
    | nil h' => exact ⟨i', hi, .nil h'⟩
  | char hc _ ih =>
    obtain ⟨hc', h'⟩ := char_iff.mp h'
    obtain ⟨k, hk, h⟩ := ih h' (Nat.succ_le_succ hi)
    exact ⟨k, hk, .char hc' h⟩
  | one _ _ ih =>
    obtain ⟨hc', h'⟩ := one_iff.mp h'
    obtain ⟨k, hk, h⟩ := ih h' (Nat.succ_le_succ hi)
    exact ⟨k, hk, .one hc' h⟩
  | @run i s ps j his hl h ih =>
    cases h' with
    | @run _ s' _ _ his' hl' h' =>
      rcases Nat.le_total i' s with hs | hs
      · exact ⟨j, Nat.le_refl j, .run hs (hl.drop hi) h⟩
      · obtain ⟨k, hk, h⟩ := ih h' (Nat.le_trans hs his')
        exact ⟨k, hk, .run his' hl' h⟩
  | @many i s ps j his hl h ih =>
    cases h' with
    | @many _ s' _ _ his' hl' h' =>
      rcases Nat.lt_or_ge i' s with hs | hs
      · exact ⟨j, Nat.le_refl j, .many hs (hl.drop hi) h⟩
      · obtain ⟨k, hk, h⟩ := ih h' (Nat.le_trans hs (Nat.le_of_lt his'))
        exact ⟨k, hk, .many his' hl' h⟩
  | atStart _ ih =>
    obtain ⟨rfl, h'⟩ := atStart_iff.mp h'
    obtain ⟨k, hk, h⟩ := ih h' hi
    exact ⟨k, hk, .atStart h⟩
  | atEnd _ ih =>
    obtain ⟨rfl, h'⟩ := atEnd_iff.mp h'
    obtain ⟨k, hk, h⟩ := ih h' hi
    exact ⟨k, hk, .atEnd h⟩

end Occurs
end Relabel.Find
