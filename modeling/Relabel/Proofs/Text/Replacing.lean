import Mathlib.Data.List.Infix
import Mathlib.Data.List.Sublists
import Relabel.Text

/-!
# Replacing a piece of text

What replacing every occurrence of a text comes to, and where an occurrence can come from that was
not there before.

* `Text.Replaced`: the text is cut at occurrences, and something else is put there.
* `Text.Seam`: no occurrence lies across the place where two texts meet, so that both can be dealt
  with on their own (`Text.replaceAll_append`).
* `Text.Clashes`: a text that is put in can make up an occurrence together with what stands around
  it. A text that cannot leaves no occurrence (`Text.Replaced.absent`) and is left alone
  (`Text.replaceAll_around`).
-/

namespace Relabel.Text

variable {w p r v x y z s s' : List Char}

/-! ## One step -/

theorem replaceFrom_eq_drop (k : Nat) (s : List Char) :
    replaceFrom w r k s = replaceFrom w r 0 (s.drop k) := by
  induction s generalizing k with
  | nil => cases k <;> rfl
  | cons c s ih =>
    cases k with
    | zero => rfl
    | succ k => exact ih k

theorem replaceFrom_hit (hw : w ≠ []) (s : List Char) :
    replaceFrom w r 0 (w ++ s) = r ++ replaceFrom w r 0 s := by
  obtain ⟨c, w, rfl⟩ := List.exists_cons_of_ne_nil hw
  have hp : (c :: w).isPrefixOf (c :: (w ++ s)) = true :=
    List.isPrefixOf_iff_prefix.mpr (List.prefix_append (c :: w) s)
  rw [List.cons_append, replaceFrom, if_pos hp, replaceFrom_eq_drop]
  simp

theorem replaceFrom_miss {c : Char} (h : ¬ w <+: c :: s) :
    replaceFrom w r 0 (c :: s) = c :: replaceFrom w r 0 s := by
  rw [replaceFrom, if_neg (by rwa [List.isPrefixOf_iff_prefix])]

theorem replaceAll_eq (hw : w ≠ []) (s : List Char) :
    replaceAll w r s = replaceFrom w r 0 s := by
  obtain ⟨c, w, rfl⟩ := List.exists_cons_of_ne_nil hw
  rfl

theorem replaceAll_self (hw : w ≠ []) : replaceAll w r w = r := by
  have h := replaceFrom_hit (r := r) hw []
  rwa [List.append_nil, ← replaceAll_eq hw, replaceFrom, List.append_nil] at h

/-! ## All occurrences -/

/-- `s` is cut at occurrences of `w` so that none is left between the cuts, and `s'` has `r` in
their places. -/
inductive Replaced (w r : List Char) : List Char → List Char → Prop
  | none {s : List Char} : ¬ w <:+: s → Replaced w r s s
  | next {x s s' : List Char} : ¬ w <:+: x → Replaced w r s s' →
    Replaced w r (x ++ w ++ s) (x ++ r ++ s')

theorem Replaced.cons {c : Char} (h : Replaced w r s s') (hc : ¬ w <+: c :: s) :
    Replaced w r (c :: s) (c :: s') := by
  cases h with
  | none hs => exact .none fun h => (List.infix_cons_iff.mp h).elim hc hs
  | @next x s s' hx h =>
    refine .next (x := c :: x) (fun hi => (List.infix_cons_iff.mp hi).elim (fun hp => hc ?_) hx) h
    exact hp.trans ⟨w ++ s, by simp⟩

theorem replaced_replaceAll (hw : w ≠ []) (s : List Char) : Replaced w r s (replaceAll w r s) := by
  rw [replaceAll_eq hw]
  -- By the length of the text, since a hit goes on behind the whole occurrence.
  induction hn : s.length using Nat.strong_induction_on generalizing s with
  | h n ih =>
  subst hn
  cases s with
  | nil => exact .none fun h => hw (List.infix_nil.mp h)
  | cons c s =>
    by_cases hp : w <+: c :: s
    · obtain ⟨t, ht⟩ := hp
      rw [← ht, replaceFrom_hit hw]
      have hlt : t.length < (c :: s).length := by
        rw [← ht, List.length_append]
        exact Nat.lt_add_of_pos_left (List.length_pos_iff.mpr hw)
      exact .next (x := []) (fun h => hw (List.infix_nil.mp h)) (ih _ hlt t rfl)
    · rw [replaceFrom_miss hp]
      exact (ih _ (Nat.lt_succ_self _) s rfl).cons hp

theorem replaceAll_of_absent (hw : w ≠ []) (h : ¬ w <:+: s) : replaceAll w r s = s := by
  have hr := replaced_replaceAll (r := r) hw s
  generalize replaceAll w r s = s' at hr
  cases hr with
  | none => rfl
  | next => exact absurd (List.infix_append ..) h

/-! ## Seams -/

/-- No occurrence of `w` begins in `x` and ends in `z` where `z` follows on `x`. -/
def Seam (w x z : List Char) : Prop :=
  ∀ a b, w = a ++ b → a ≠ [] → b ≠ [] → a <:+ x → ¬ b <+: z

theorem Seam.tail {c : Char} (h : Seam w (c :: x) z) : Seam w x z :=
  fun a b hw ha hb hx => h a b hw ha hb (hx.trans (List.suffix_cons c x))

/-- An occurrence that begins in the first text ends in it. -/
theorem Seam.within (h : Seam w x z) (hx : x ≠ []) (hp : w <+: x ++ z) : w <+: x := by
  rcases List.prefix_or_prefix_of_prefix hp (List.prefix_append x z) with hwx | ⟨b, rfl⟩
  · exact hwx
  · by_cases hb : b = []
    · rw [hb, List.append_nil]
    · exact absurd ((List.prefix_append_right_inj x).mp hp) (h x b rfl hx hb List.suffix_rfl)

/-- Two texts without occurrences have none when they are put together at a seam. -/
theorem Seam.absent (h : Seam w x z) (hx : ¬ w <:+: x) (hz : ¬ w <:+: z) : ¬ w <:+: x ++ z := by
  intro hi
  obtain hi | hi | ⟨a, b, ha, hb, hw, hax, hbz⟩ := List.infix_append_iff_ne_nil.mp hi
  · exact hx hi
  · exact hz hi
  · exact h a b hw ha hb hax hbz

theorem replaceFrom_append (h : Seam w x z) {k : Nat} (hk : k ≤ x.length) :
    replaceFrom w r k (x ++ z) = replaceFrom w r k x ++ replaceFrom w r 0 z := by
  induction x generalizing k with
  | nil =>
    obtain rfl := Nat.le_zero.mp hk
    rfl
  | cons c x ih =>
    cases k with
    | succ k => exact ih h.tail (Nat.le_of_succ_le_succ hk)
    | zero =>
      by_cases hp : w <+: c :: x
      · -- What is left over of the occurrence ends in `x` as well.
        have hlen : w.length - 1 ≤ x.length := Nat.sub_le_of_le_add hp.length_le
        have hpz : w <+: c :: (x ++ z) := hp.trans (List.prefix_append (c :: x) z)
        rw [List.cons_append, replaceFrom, replaceFrom,
          if_pos (List.isPrefixOf_iff_prefix.mpr hp), if_pos (List.isPrefixOf_iff_prefix.mpr hpz),
          ih h.tail hlen, List.append_assoc]
      · have hpz : ¬ w <+: c :: (x ++ z) := fun hpz => hp (h.within (List.cons_ne_nil c x) hpz)
        rw [List.cons_append, replaceFrom_miss hpz, replaceFrom_miss hp,
          ih h.tail (Nat.zero_le _), List.cons_append]

/-- Across a seam both texts can be dealt with on their own. -/
theorem replaceAll_append (hw : w ≠ []) (h : Seam w x z) :
    replaceAll w r (x ++ z) = replaceAll w r x ++ replaceAll w r z := by
  simp only [replaceAll_eq hw]
  exact replaceFrom_append h (Nat.zero_le _)

/-! ## Clashes -/

/-- With a part of `w` before it and a part of `w` behind it, but neither of them all of `w`, the
text `v` makes up an occurrence of `w`. -/
def Clashes (v w : List Char) : Prop :=
  ∃ a ∈ w.inits, ∃ b ∈ w.tails, a ≠ w ∧ b ≠ w ∧ w <:+: a ++ v ++ b

instance (v w : List Char) : Decidable (Clashes v w) :=
  inferInstanceAs (Decidable (∃ a ∈ w.inits, ∃ b ∈ w.tails, _))

/-- An occurrence that begins before `v` and ends in it or behind it. -/
theorem clashes_of_left {a b : List Char} (hw : w = a ++ b) (ha : a ≠ []) (hb : b ≠ [])
    (h : b <+: v ++ y) : Clashes v w := by
  have haw : a ≠ w := fun h => hb (List.append_right_eq_self.mp (hw.symm.trans h.symm))
  have hai : a ∈ w.inits := (List.mem_inits ..).mpr ⟨b, hw.symm⟩
  rcases List.prefix_or_prefix_of_prefix h (List.prefix_append v y) with ⟨v', rfl⟩ | ⟨b', rfl⟩
  · refine ⟨a, hai, [], (List.mem_tails ..).mpr List.nil_suffix, haw, ?_, ?_⟩
    · rw [hw]
      exact (List.append_ne_nil_of_left_ne_nil ha b).symm
    · exact ⟨[], v', by simp [hw]⟩
  · refine ⟨a, hai, b', (List.mem_tails ..).mpr ⟨a ++ v, by simp [hw]⟩, haw, ?_, ?_⟩
    · intro h
      have hlen := congrArg List.length (h.trans hw)
      simp only [List.length_append] at hlen
      have := List.length_pos_iff.mpr ha
      omega
    · exact ⟨[], [], by simp [hw]⟩

/-- An occurrence that begins in `v` and ends behind it. -/
theorem clashes_of_right {a b : List Char} (hw : w = a ++ b) (ha : a ≠ []) (h : a <:+ v) :
    Clashes v w := by
  obtain ⟨v', rfl⟩ := h
  refine ⟨[], (List.mem_inits ..).mpr List.nil_prefix, b, (List.mem_tails ..).mpr ⟨a, hw.symm⟩,
    ?_, ?_, v', [], by simp [hw]⟩
  · rw [hw]
    exact (List.append_ne_nil_of_left_ne_nil ha b).symm
  · exact fun h => ha (List.append_left_eq_self.mp (hw.symm.trans h.symm))

theorem clashes_of_occurs (hw : w ≠ []) (h : w <:+: v) : Clashes v w :=
  ⟨[], (List.mem_inits ..).mpr List.nil_prefix, [], (List.mem_tails ..).mpr List.nil_suffix,
    hw.symm, hw.symm, by simpa using h⟩

theorem seam_before (h : ¬ Clashes v w) : Seam w x (v ++ y) :=
  fun _ _ hw ha hb _ hbz => h (clashes_of_left hw ha hb hbz)

theorem seam_behind (h : ¬ Clashes v w) : Seam w v y :=
  fun _ _ hw ha _ hax _ => h (clashes_of_right hw ha hax)

/-- A text that does not clash with `w` makes up no occurrence of it, whatever it is put between. -/
theorem absent_around (hw : w ≠ []) (h : ¬ Clashes v w) (hx : ¬ w <:+: x) (hy : ¬ w <:+: y) :
    ¬ w <:+: x ++ v ++ y := by
  rw [List.append_assoc]
  refine (seam_before h).absent hx ((seam_behind h).absent ?_ hy)
  exact fun hi => h (clashes_of_occurs hw hi)

/-- A text that does not clash with `w` is left alone, whatever stands around it. -/
theorem replaceAll_around (hw : w ≠ []) (h : ¬ Clashes v w) :
    replaceAll w r (x ++ v ++ y) = replaceAll w r x ++ v ++ replaceAll w r y := by
  rw [List.append_assoc, replaceAll_append hw (seam_before h), replaceAll_append hw (seam_behind h),
    replaceAll_of_absent hw fun hi => h (clashes_of_occurs hw hi), List.append_assoc]

/-- Where the text that is put in does not clash with `p`, no occurrence of `p` comes about. -/
theorem Replaced.absent (h : Replaced w r s s') (hp : p ≠ []) (hr : ¬ Clashes r p)
    (hs : p = w ∨ ¬ p <:+: s) : ¬ p <:+: s' := by
  -- Between the cuts there is no `p`, since there is no `w` there or since `s` holds no `p` at all.
  induction h with
  | none hn =>
    rcases hs with rfl | hs
    · exact hn
    · exact hs
  | @next x s s' hx _ ih =>
    rcases hs with rfl | hs
    · exact absent_around hp hr hx (ih (.inl rfl))
    · refine absent_around hp hr ?_ (ih (.inr ?_))
      · exact fun hi => hs (hi.trans ⟨[], w ++ s, by simp⟩)
      · exact fun hi => hs (hi.trans ⟨x ++ w, [], by simp⟩)

end Relabel.Text
