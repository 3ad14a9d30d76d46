import Relabel.Proofs.Find.Occurrence

/-!
# Tables of lengths

What the tables of the search hold. An entry is the length of the longest occurrence from its
place (`Entry`), and the table of a pattern has the entries of all places (`Tabulates`).

* `tabulates_extend`: a piece put before a pattern takes its table to that of the longer pattern.
* `tabulates_lengths`: the search computes the table of the occurrences of a pattern.
-/

namespace Relabel.Find

/-- The entry tells the length of the longest match from place `i`, if there is a match. -/
def Entry (M : Nat → Nat → Prop) (i : Nat) : Option Nat → Prop
  | none => ∀ j, ¬ M i j
  | some k => Longest M i (i + k)

/-- The table has the entries of the places from `i` up to place `n`. -/
def Tabulates (M : Nat → Nat → Prop) (n : Nat) : Nat → Lengths → Prop
  | i, [] => i = n + 1
  | i, e :: m => Entry M i e ∧ Tabulates M n (i + 1) m

variable {M N : Nat → Nat → Prop} {n i j k : Nat} {e : Option Nat} {m : Lengths}
variable {name : List Char} {ps : List Piece}

/-! ## Entries -/

namespace Entry

theorem unique {e' : Option Nat} (h : Entry M i e) (h' : Entry M i e') : e = e' := by
  cases e with
  | none =>
    cases e' with
    | none => rfl
    | some k => exact absurd h'.1 (h _)
  | some k =>
    cases e' with
    | none => exact absurd h.1 (h' _)
    | some k' =>
      have h1 := h'.2 _ h.1
      have h2 := h.2 _ h'.1
      rw [show k = k' by omega]

theorem congr (H : ∀ j, M i j ↔ N i j) (h : Entry M i e) : Entry N i e := by
  cases e with
  | none => exact fun j hj => h j ((H j).mpr hj)
  | some k => exact ⟨(H _).mp h.1, fun j hj => h.2 j ((H j).mpr hj)⟩

/-- A match that takes one character before a match from the next place. -/
theorem succ (H : ∀ j, N i j ↔ M (i + 1) j) (h : Entry M (i + 1) e) :
    Entry N i (e.map (· + 1)) := by
  cases e with
  | none => exact fun j hj => h j ((H j).mp hj)
  | some k =>
    have hk : i + 1 + k = i + (k + 1) := by omega
    refine ⟨(H _).mpr (hk ▸ h.1), fun j hj => ?_⟩
    exact hk ▸ h.2 j ((H j).mp hj)

/-- An occurrence that ends with the longest one from the next place is itself the longest. -/
theorem of_succ (h : Entry (Occurs name ps) (i + 1) (some k))
    (hi : Occurs name ps i (i + 1 + k)) : Entry (Occurs name ps) i (some (k + 1)) := by
  have hk : i + 1 + k = i + (k + 1) := by omega
  refine ⟨hk ▸ hi, fun j hj => ?_⟩
  obtain ⟨l, hl, h'⟩ := hj.later h.1 (Nat.le_succ i)
  exact hk ▸ Nat.le_trans hl (h.2 l h')

end Entry

/-! ## Tables -/

namespace Tabulates

theorem length (h : Tabulates M n i m) : i + m.length = n + 1 := by
  induction m generalizing i with
  | nil => exact h
  | cons e m ih =>
    have := ih h.2
    rw [List.length_cons]
    omega

theorem ne_nil (h : Tabulates M n i m) (hi : i ≤ n) : m ≠ [] := by
  rintro rfl
  have : i = n + 1 := h
  omega

theorem head (h : Tabulates M n i m) (hi : i ≤ n) : Entry M i m.head?.join := by
  cases m with
  | nil => exact absurd rfl (h.ne_nil hi)
  | cons e m => exact h.1

theorem tail (h : Tabulates M n i m) (hi : i ≤ n) : Tabulates M n (i + 1) m.tail := by
  cases m with
  | nil => exact absurd rfl (h.ne_nil hi)
  | cons e m => exact h.2

theorem length_eq {m' : Lengths} (h : Tabulates M n i m) (h' : Tabulates N n i m') :
    m.length = m'.length := by
  have := h.length
  have := h'.length
  omega

/-- The table of the last place alone. -/
theorem eq_singleton (h : Tabulates M n n m) : m = [m.head?.join] := by
  have := h.length
  match m with
  | [] => exact absurd rfl (h.ne_nil (Nat.le_refl n))
  | [e] => rfl
  | _ :: _ :: _ => simp only [List.length_cons] at this; omega

theorem singleton (h : Entry M n e) : Tabulates M n n [e] := ⟨h, rfl⟩

theorem unique {m' : Lengths} (h : Tabulates M n i m) (h' : Tabulates M n i m') : m = m' := by
  induction m generalizing i m' with
  | nil => exact (List.eq_nil_of_length_eq_zero (h.length_eq h').symm).symm
  | cons e m ih =>
    cases m' with
    | nil => exact absurd (h.length_eq h') (Nat.succ_ne_zero _)
    | cons e' m' => rw [h.1.unique h'.1, ih h.2 h'.2]

theorem congr (H : ∀ i j, M i j ↔ N i j) (h : Tabulates M n i m) : Tabulates N n i m := by
  induction m generalizing i with
  | nil => exact h
  | cons e m ih => exact ⟨h.1.congr (H i), ih h.2⟩

/-- Of two tables, the first of which has no entries, the second counts. -/
theorem zipWith_or_right {m' : Lengths} (H : ∀ i j, ¬ M i j) (h : Tabulates M n i m)
    (hm : m.length = m'.length) : List.zipWith Option.or m m' = m' := by
  induction m generalizing i m' with
  | nil => exact (List.eq_nil_of_length_eq_zero hm.symm).symm
  | cons e m ih =>
    cases m' with
    | nil => rfl
    | cons e' m' =>
      have hnone : Entry M i none := H i
      rw [List.zipWith_cons_cons, h.1.unique hnone, Option.none_or, ih h.2 (Nat.succ.inj hm)]

end Tabulates

/-! ## One piece more -/

/-- The first entry of the extended table, with characters left. -/
theorem entry_extend {c : Char} {here next after : Option Nat} (p : Piece)
    (hc : name[i]? = some c) (h0 : Entry (Occurs name ps) i here)
    (h1 : Entry (Occurs name ps) (i + 1) next)
    (h2 : Entry (Occurs name (p :: ps)) (i + 1) after) :
    Entry (Occurs name (p :: ps)) i (p.entry (i == 0) c here next after) := by
  have hline := InLine.iff_ne hc
  cases p with
  | char d =>
    dsimp only [Piece.entry]
    split
    · rename_i hcd
      exact h1.succ fun j => by rw [Occurs.char_iff, hc, hcd]; simp
    · rename_i hcd
      intro j hj
      obtain ⟨hd, -⟩ := Occurs.char_iff.mp hj
      cases hc.symm.trans hd
      exact hcd rfl
  | one =>
    dsimp only [Piece.entry]
    split
    · rename_i hnl
      exact fun j hj => hline.mp (Occurs.one_iff.mp hj).1 hnl
    · rename_i hnl
      exact h1.succ fun j => by rw [Occurs.one_iff]; simp [hline.mpr hnl]
  | run =>
    dsimp only [Piece.entry]
    split
    · rename_i hnl
      exact h0.congr fun j => by rw [Occurs.run_iff, hline]; simp [hnl]
    · rename_i hnl
      cases after with
      | none =>
        refine h0.congr fun j => ?_
        rw [Occurs.run_iff]
        exact ⟨.inl, fun h => h.resolve_right fun h' => h2 j h'.2⟩
      | some k => exact h2.of_succ (Occurs.run_iff.mpr (.inr ⟨hline.mpr hnl, h2.1⟩))
  | many =>
    dsimp only [Piece.entry]
    split
    · rename_i hnl
      exact fun j hj => hline.mp (Occurs.many_iff.mp hj).1 hnl
    · rename_i hnl
      cases after with
      | none =>
        refine h1.succ fun j => ?_
        rw [Occurs.many_iff]
        exact ⟨fun h => h.2.resolve_right (h2 j), fun h => ⟨hline.mpr hnl, .inl h⟩⟩
      | some k => exact h2.of_succ (Occurs.many_iff.mpr ⟨hline.mpr hnl, .inr h2.1⟩)
  | atStart =>
    dsimp only [Piece.entry]
    split
    · rename_i hi
      exact h0.congr fun j => by rw [Occurs.atStart_iff, beq_iff_eq.mp hi]; simp
    · rename_i hi
      exact fun j hj => hi (beq_iff_eq.mpr (Occurs.atStart_iff.mp hj).1)
  | atEnd =>
    intro j hj
    have := (List.getElem?_eq_some_iff.mp hc).1
    have := (Occurs.atEnd_iff.mp hj).1
    omega

/-- The entry of the extended table at the end of the name. -/
theorem entry_extend_end {here : Option Nat} (p : Piece)
    (h : Entry (Occurs name ps) name.length here) :
    Entry (Occurs name (p :: ps)) name.length (p.lastEntry (name.length == 0) here) := by
  have hline : ¬ InLine name name.length := fun h => Nat.lt_irrefl _ h.lt_length
  cases p with
  | char d =>
    intro j hj
    have := (List.getElem?_eq_some_iff.mp (Occurs.char_iff.mp hj).1).1
    omega
  | one => exact fun j hj => hline (Occurs.one_iff.mp hj).1
  | run => exact h.congr fun j => by rw [Occurs.run_iff]; simp [hline]
  | many => exact fun j hj => hline (Occurs.many_iff.mp hj).1
  | atStart =>
    dsimp only [Piece.lastEntry]
    split
    · rename_i hi
      exact h.congr fun j => by rw [Occurs.atStart_iff, beq_iff_eq.mp hi]; simp
    · rename_i hi
      exact fun j hj => hi (beq_iff_eq.mpr (Occurs.atStart_iff.mp hj).1)
  | atEnd => exact h.congr fun j => by rw [Occurs.atEnd_iff]; simp

/-- A piece put before a pattern takes its table to that of the longer pattern. -/
theorem tabulates_extend (p : Piece) {rest : Lengths} (hi : i ≤ name.length)
    (h : Tabulates (Occurs name ps) name.length i rest) :
    Tabulates (Occurs name (p :: ps)) name.length i (p.extend (i == 0) (name.drop i) rest) := by
  generalize hs : name.drop i = s
  induction s generalizing i rest with
  | nil =>
    obtain rfl : i = name.length := Nat.le_antisymm hi (List.drop_eq_nil_iff.mp hs)
    exact .singleton (entry_extend_end p (h.head (Nat.le_refl _)))
  | cons c s ih =>
    have hlt : i < name.length := by
      rcases Nat.lt_or_ge i name.length with h | h
      · exact h
      · rw [List.drop_eq_nil_of_le h] at hs; cases hs
    have hcons := List.drop_eq_getElem_cons hlt
    rw [hs] at hcons
    obtain ⟨rfl, hs'⟩ := List.cons.inj hcons
    have hafter := ih hlt (h.tail hi) hs'.symm
    rw [show (i + 1 == 0) = false from rfl] at hafter
    exact ⟨entry_extend p (List.getElem?_eq_getElem hlt) (h.head hi) ((h.tail hi).head hlt)
      (hafter.head hlt), hafter⟩

/-- The pieces of no pattern occur at every place, and take nothing. -/
theorem tabulates_emptyMatches :
    Tabulates (Occurs name []) name.length 0 (emptyMatches name) := by
  have hentry : ∀ {i}, i ≤ name.length → Entry (Occurs name []) i (some 0) := fun hi =>
    ⟨.nil hi, fun j hj => by cases hj; exact Nat.le_refl _⟩
  have hmap : ∀ {s : List Char} {i}, i + s.length = name.length + 1 →
      Tabulates (Occurs name []) name.length i (s.map fun _ => some 0) := by
    intro s
    induction s with
    | nil => exact id
    | cons c s ih =>
      intro i hi
      rw [List.length_cons] at hi
      exact ⟨hentry (by omega), ih (by omega)⟩
  exact ⟨hentry (Nat.zero_le _), hmap (by omega)⟩

/-- The search computes the table of the occurrences of a pattern. -/
theorem tabulates_lengths : Tabulates (Occurs name ps) name.length 0 (lengths ps name) := by
  induction ps with
  | nil => exact tabulates_emptyMatches
  | cons p ps ih => exact tabulates_extend p (Nat.zero_le _) ih

/-- The lengths are settled by the occurrences. -/
theorem lengths_congr {qs : List Piece} (H : ∀ i j, Occurs name ps i j ↔ Occurs name qs i j) :
    lengths ps name = lengths qs name :=
  (tabulates_lengths.congr H).unique tabulates_lengths

theorem length_lengths : (lengths ps name).length = name.length + 1 := by
  have : 0 + (lengths ps name).length = name.length + 1 := tabulates_lengths.length
  omega

end Relabel.Find
