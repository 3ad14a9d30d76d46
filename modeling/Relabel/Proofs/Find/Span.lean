import Relabel.Proofs.Find.Table

/-!
# Spans

The matches that are replaced in a name, as pairs of places. From the left, the next one starts at
the first place that has a match, not before the end of the last one, and is the longest match
there (`Finds`). There is one such sequence only (`Finds.unique`).

`finds_cut` and `text_cut` say that cutting a name along its table gives this sequence and keeps
every character; `replaced_eq_splice` is the replacement of the matches.
-/

namespace Relabel.Find

/-- A match from `i` to `j` that a search from place `start` may take. `closed` says that the last
match ended at `start`, so that an empty match there does not count. -/
def Counts (M : Nat → Nat → Prop) (start : Nat) (closed : Bool) (i j : Nat) : Prop :=
  start ≤ i ∧ M i j ∧ ¬ (closed = true ∧ i = start ∧ j = start)

/-- The spans are those of the matches that a search from place `start` takes, each the longest
one at the first place at which a match counts. -/
inductive Finds (M : Nat → Nat → Prop) : Nat → Bool → List (Nat × Nat) → Prop
  | done : (∀ i j, ¬ Counts M start closed i j) → Finds M start closed []
  | next : Counts M start closed i j → (∀ i' j', Counts M start closed i' j' → i ≤ i') →
    Longest M i j → Finds M j true spans → Finds M start closed ((i, j) :: spans)

/-- The name from place `start`, with `r` in place of the spans. -/
def splice (name r : List Char) : Nat → List (Nat × Nat) → List Char
  | start, [] => name.drop start
  | start, (i, j) :: spans => (name.drop start).take (i - start) ++ r ++ splice name r j spans

/-- The spans of the matches in the parts of a name from place `start`. -/
def Part.spans : Nat → List Part → List (Nat × Nat)
  | _, [] => []
  | start, .kept _ :: ps => spans (start + 1) ps
  | start, .found t :: ps => (start, start + t.length) :: spans (start + t.length) ps

variable {M : Nat → Nat → Prop} {n i j k start : Nat} {closed : Bool} {spans : List (Nat × Nat)}
variable {name r s : List Char} {m : Lengths}

namespace Finds

theorem unique {spans' : List (Nat × Nat)} (h : Finds M start closed spans)
    (h' : Finds M start closed spans') : spans = spans' := by
  induction h generalizing spans' with
  | done h =>
    cases h' with
    | done => rfl
    | next hc _ _ _ => exact absurd hc (h _ _)
  | @next start closed i j spans hc hmin hl _ ih =>
    cases h' with
    | done h' => exact absurd hc (h' _ _)
    | @next _ _ i' j' _ hc' hmin' hl' h' =>
      obtain rfl : i = i' := Nat.le_antisymm (hmin _ _ hc') (hmin' _ _ hc)
      obtain rfl : j = j' := Nat.le_antisymm (hl'.2 _ hl.1) (hl.2 _ hl'.1)
      rw [ih h']

/-- Where no match counts at a place, the search goes on at the next one. -/
theorem skip (hstart : ∀ j, M start j → closed = true ∧ j = start)
    (h : Finds M (start + 1) false spans) : Finds M start closed spans := by
  have hiff : ∀ i j, Counts M start closed i j ↔ Counts M (start + 1) false i j := by
    intro i j
    constructor
    · rintro ⟨hi, hM, hne⟩
      have : i ≠ start := by
        rintro rfl
        exact hne ⟨(hstart j hM).1, rfl, (hstart j hM).2⟩
      exact ⟨by omega, hM, by simp⟩
    · rintro ⟨hi, hM, -⟩
      exact ⟨by omega, hM, fun h => by omega⟩
  cases h with
  | done h => exact .done fun i j hc => h i j ((hiff i j).mp hc)
  | next hc hmin hl h =>
    exact .next ((hiff _ _).mpr hc) (fun i' j' hc' => hmin i' j' ((hiff _ _).mp hc')) hl h

/-- A match at the place where the search starts is taken. -/
theorem here (hl : Longest M start j) (hc : closed = true → start < j)
    (h : Finds M j true spans) : Finds M start closed ((start, j) :: spans) := by
  refine .next ⟨Nat.le_refl _, hl.1, ?_⟩ (fun i' j' h' => h'.1) hl h
  rintro ⟨h1, -, rfl⟩
  exact Nat.lt_irrefl _ (hc h1)

theorem le_of_mem (hM : ∀ i j, M i j → i ≤ j) (h : Finds M start closed spans) {p : Nat × Nat}
    (hp : p ∈ spans) : start ≤ p.1 := by
  induction h with
  | done => cases hp
  | next hc _ _ _ ih =>
    rcases List.mem_cons.mp hp with rfl | hp
    · exact hc.1
    · exact Nat.le_trans hc.1 (Nat.le_trans (hM _ _ hc.2.1) (ih hp))

end Finds

/-! ## Cutting along a table -/

/-- The entry of a place where nothing is taken has no match but an empty one that does not
count. -/
theorem Entry.eq_of_not_taken {e : Option Nat} (hM : ∀ i j, M i j → i ≤ j) (h : Entry M i e)
    (h1 : ∀ k, e ≠ some (k + 1)) (h2 : closed = false → e ≠ some 0) (hj : M i j) :
    closed = true ∧ j = i := by
  cases e with
  | none => exact absurd hj (h j)
  | some k =>
    cases k with
    | succ k => exact absurd rfl (h1 k)
    | zero =>
      refine ⟨?_, Nat.le_antisymm (h.2 j hj) (hM i j hj)⟩
      cases closed with
      | false => exact absurd rfl (h2 rfl)
      | true => rfl

/-- Where a cut stops, the name ends. -/
theorem Tabulates.eq_nil_of_stop (h : Tabulates M n i m) (hs : i + s.length = n)
    (h1 : ∀ (k : Nat) (c : Char) (s' : List Char) (e : Option Nat) (m' : Lengths),
      j = k + 1 → s = c :: s' → m = e :: m' → False)
    (h2 : ∀ (c : Char) (s' : List Char) (e : Option Nat) (m' : Lengths),
      j = 0 → s = c :: s' → m = e :: m' → False) : s = [] := by
  cases s with
  | nil => rfl
  | cons c s =>
    rw [List.length_cons] at hs
    cases m with
    | nil => exact absurd rfl (h.ne_nil (by omega))
    | cons e m =>
      cases j with
      | zero => exact (h2 c s e m rfl rfl rfl).elim
      | succ k => exact (h1 k c s e m rfl rfl rfl).elim

/-- Cutting finds the spans that the search is to find. While `k` characters of a match are left,
the search goes on behind them. -/
theorem finds_cut (hM : ∀ i j, M i j → i ≤ j ∧ j ≤ n) (h : Tabulates M n i m)
    (hs : i + s.length = n) (hk : k ≤ s.length) (hclosed : k = 0 ∨ closed = true) :
    Finds M (i + k) closed (Part.spans (i + k) (cut k closed s m)) := by
  fun_induction cut k closed s m generalizing i with
  | case1 closed k c s e m ih =>
    obtain rfl : closed = true := hclosed.resolve_left (Nat.succ_ne_zero k)
    rw [List.length_cons] at hs hk
    rw [show i + (k + 1) = i + 1 + k by omega]
    exact ih h.2 (by omega) (Nat.le_of_succ_le_succ hk) (.inr rfl)
  | case2 closed c s k m ih =>
    have hl : Longest M i (i + (k + 1)) := h.1
    have hle := (hM _ _ hl.1).2
    rw [List.length_cons] at hs
    have hlen : ((c :: s).take (k + 1)).length = k + 1 := by
      rw [List.length_take, List.length_cons]
      omega
    rw [Part.spans, hlen]
    refine .here hl (fun _ => by omega) ?_
    rw [show i + 0 + (k + 1) = i + 1 + k by omega]
    exact ih h.2 (by omega) (by omega) (.inr rfl)
  | case3 c s m ih =>
    have hl : Longest M i i := h.1
    rw [List.length_cons] at hs
    have hrest := ih h.2 (by omega) (Nat.zero_le _) (.inl rfl)
    refine .here hl nofun (.skip (fun j hj => ⟨rfl, ?_⟩) hrest)
    exact Nat.le_antisymm (hl.2 j hj) (hM i j hj).1
  | case4 closed c s e m hsome hzero ih =>
    rw [List.length_cons] at hs
    refine .skip (fun j hj => ?_) (ih h.2 (by omega) (Nat.zero_le _) (.inl rfl))
    exact h.1.eq_of_not_taken (fun i j h => (hM i j h).1) hsome hzero hj
  | case5 m =>
    have hl : Longest M i i := h.1
    refine .here hl nofun (.done fun i' j' hc => hc.2.2 ⟨rfl, ?_⟩)
    have := hM _ _ hc.2.1
    have := hc.1
    rw [List.length_nil] at hs
    exact ⟨by omega, by omega⟩
  | case6 s k closed m h1 h2 h3 h4 h5 =>
    obtain rfl := h.eq_nil_of_stop hs h1 h3
    obtain rfl : k = 0 := Nat.le_zero.mp hk
    obtain rfl : i = n := hs
    refine .done fun i' j' hc => hc.2.2 ?_
    have hb := hM _ _ hc.2.1
    obtain rfl : i' = i := by have := hc.1; omega
    have he := h.head (Nat.le_refl _)
    refine (he.eq_of_not_taken (fun i j h => (hM i j h).1) ?_ ?_ hc.2.1).imp id fun h => ⟨rfl, h⟩
    · intro k hk
      rw [hk] at he
      have := (hM _ _ he.1).2
      omega
    · intro hclosed hm
      rw [h.eq_singleton, hm] at h5
      exact h5 [] rfl hclosed rfl rfl

/-- Cutting keeps every character behind those of the match that is taken already. -/
theorem text_cut (h : Tabulates M n i m) (hs : i + s.length = n) :
    (cut k closed s m).flatMap Part.text = s.drop k := by
  fun_induction cut k closed s m generalizing i with
  | case1 closed k c s e m ih =>
    rw [List.length_cons] at hs
    exact ih h.2 (by omega)
  | case2 closed c s k m ih =>
    rw [List.length_cons] at hs
    rw [List.flatMap_cons, ih h.2 (by omega)]
    exact List.take_append_drop (k + 1) (c :: s)
  | case3 c s m ih =>
    rw [List.length_cons] at hs
    rw [List.flatMap_cons, List.flatMap_cons, ih h.2 (by omega)]
    rfl
  | case4 closed c s e m _ _ ih =>
    rw [List.length_cons] at hs
    rw [List.flatMap_cons, ih h.2 (by omega)]
    rfl
  | case5 m => rfl
  | case6 s k closed m h1 h2 h3 h4 h5 =>
    obtain rfl := h.eq_nil_of_stop hs h1 h3
    rw [List.drop_nil]
    rfl

/-! ## Replacing -/

theorem drop_succ_of_drop {c : Char} (h : name.drop i = c :: s) : name.drop (i + 1) = s := by
  rw [← List.tail_drop, h, List.tail_cons]

theorem Part.le_of_mem_spans {ps : List Part} (h : (i, j) ∈ Part.spans start ps) : start ≤ i := by
  induction ps generalizing start with
  | nil => cases h
  | cons p ps ih =>
    cases p with
    | kept c => exact Nat.le_of_succ_le (ih h)
    | found t =>
      rcases List.mem_cons.mp h with h | h
      · cases h
        exact Nat.le_refl _
      · exact Nat.le_trans (Nat.le_add_right _ _) (ih h)

/-- A character before all spans is kept. -/
theorem splice_of_lt {c : Char} (hc : name.drop start = c :: name.drop (start + 1))
    (h : ∀ p ∈ spans, start < p.1) :
    splice name r start spans = c :: splice name r (start + 1) spans := by
  cases spans with
  | nil => exact hc
  | cons p spans =>
    obtain ⟨i, j⟩ := p
    have hi : start < i := h _ List.mem_cons_self
    rw [splice, splice, hc, show i - start = (i - (start + 1)) + 1 by omega, List.take_succ_cons]
    rfl

/-- The replacement of the matches in the parts of a name is that of their spans. -/
theorem replaced_eq_splice {ps : List Part} (h : ps.flatMap Part.text = name.drop start) :
    ps.flatMap (Part.replaced r) = splice name r start (Part.spans start ps) := by
  induction ps generalizing start with
  | nil => exact h
  | cons p ps ih =>
    cases p with
    | kept c =>
      have hc : c :: ps.flatMap Part.text = name.drop start := h
      have hdrop : ps.flatMap Part.text = name.drop (start + 1) := by
        rw [← List.drop_drop, ← hc]
        rfl
      have hlt : ∀ p ∈ Part.spans (start + 1) ps, start < p.1 :=
        fun p hp => Part.le_of_mem_spans (j := p.2) hp
      rw [List.flatMap_cons, ih hdrop, Part.spans, splice_of_lt (hdrop ▸ hc).symm hlt]
      rfl
    | found t =>
      have ht : t ++ ps.flatMap Part.text = name.drop start := h
      have hdrop : ps.flatMap Part.text = name.drop (start + t.length) := by
        rw [← List.drop_drop, ← ht, List.drop_left]
      rw [List.flatMap_cons, ih hdrop, Part.spans, splice, Nat.sub_self, List.take_zero]
      rfl

end Relabel.Find
