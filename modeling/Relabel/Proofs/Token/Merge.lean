import Mathlib.Data.List.Induction
import Relabel.Token.Basic

/-!
# Merged pools

One pool is merged into another by putting its tokens one after the other, each into the pool that
those before it have left. Labels may come more than once in both pools: a token goes over the first
one of its label only, be that of the pool itself or put there by the same merge.

* `Token.map_label_put`, `Token.find?_put`, `Token.getElem?_put`: what a token does to the labels of
  a pool, to the first token of a label and to all others.
* `Token.put_put`, `Token.put_comm`: the later one of two tokens of a label is left; tokens of
  different labels do not get into each other's way.
* `Token.merge_last_over_first`: what a merge does.
-/

namespace Relabel.Token

variable {t u : Token} {pool base overrides : List Token} {l : String} {i : Nat}

/-! ## One token -/

theorem put_of_new (h : ∀ u ∈ pool, u.label ≠ t.label) : put t pool = pool ++ [t] := by
  induction pool with
  | nil => rfl
  | cons u pool ih =>
    obtain ⟨hu, hpool⟩ := List.forall_mem_cons.mp h
    rw [put, if_neg hu, ih hpool, List.cons_append]

theorem mem_of_mem_put (h : u ∈ put t pool) : u ∈ pool ∨ u = t := by
  induction pool with
  | nil => exact .inr (List.mem_singleton.mp h)
  | cons v pool ih =>
    rw [put] at h
    split at h
    · rcases List.mem_cons.mp h with rfl | h
      · exact .inr rfl
      · exact .inl (List.mem_cons_of_mem v h)
    · rcases List.mem_cons.mp h with rfl | h
      · exact .inl List.mem_cons_self
      · exact (ih h).imp (List.mem_cons_of_mem v) id

theorem map_label_put_of_mem (h : t.label ∈ pool.map label) :
    (put t pool).map label = pool.map label := by
  induction pool with
  | nil => cases h
  | cons u pool ih =>
    rw [put]
    split
    · next hu => rw [List.map_cons, List.map_cons, hu]
    · next hu =>
      rw [List.map_cons, List.map_cons, ih ((List.mem_cons.mp h).resolve_left (Ne.symm hu))]

/-- The labels stay where they are, and a new one comes last. -/
theorem map_label_put (t : Token) (pool : List Token) :
    (put t pool).map label =
      pool.map label ++ if t.label ∈ pool.map label then [] else [t.label] := by
  split
  · next h => rw [map_label_put_of_mem h, List.append_nil]
  · next h =>
    have hnew : ∀ u ∈ pool, u.label ≠ t.label := fun u hu heq =>
      h (heq ▸ List.mem_map_of_mem hu)
    rw [put_of_new hnew, List.map_append, List.map_singleton]

theorem mem_map_label_put (h : l ∈ pool.map label) (t : Token) : l ∈ (put t pool).map label := by
  rw [map_label_put]
  exact List.mem_append_left _ h

/-- The token becomes the first one of its label. -/
theorem find?_put (t : Token) (pool : List Token) (l : String) :
    (put t pool).find? (·.label = l) =
      if t.label = l then some t else pool.find? (·.label = l) := by
  induction pool with
  | nil => by_cases hl : t.label = l <;> simp [put, hl]
  | cons u pool ih =>
    rw [put]
    split
    · next hu => by_cases hl : t.label = l <;> simp [hu, hl]
    · next hu =>
      by_cases hl : u.label = l
      · have htl : t.label ≠ l := fun h => hu (hl.trans h.symm)
        simp [hl, htl]
      · simpa [hl] using ih

/-- A token of another label stays, and so does one of the same label that is not the first. -/
theorem getElem?_put (h : pool[i]? = some u)
    (hu : u.label ≠ t.label ∨ u.label ∈ (pool.take i).map label) : (put t pool)[i]? = some u := by
  induction pool generalizing i with
  | nil => cases h
  | cons v pool ih =>
    rw [put]
    cases i with
    | zero =>
      obtain rfl := Option.some.inj h
      rw [if_neg (hu.resolve_right List.not_mem_nil)]
      rfl
    | succ i =>
      split
      · exact h
      · next hv =>
        refine ih h (hu.elim .inl fun hmem => ?_)
        rcases List.mem_cons.mp hmem with heq | hmem
        · exact .inl (heq ▸ hv)
        · exact .inr hmem

/-! ## Two tokens -/

theorem put_put (h : u.label = t.label) (pool : List Token) : put u (put t pool) = put u pool := by
  induction pool with
  | nil => rw [put, put, put, if_pos h.symm]
  | cons v pool ih =>
    by_cases hv : v.label = t.label
    · rw [put, if_pos hv, put, if_pos h.symm, put, if_pos (hv.trans h.symm)]
    · have hvu : v.label ≠ u.label := h ▸ hv
      rw [put, if_neg hv, put, if_neg hvu, ih, put, if_neg hvu]

/-- Where one of two labels is in the pool, it makes no difference which token is put first. -/
theorem put_comm (h : u.label ≠ t.label) (hu : u.label ∈ pool.map label) :
    put u (put t pool) = put t (put u pool) := by
  induction pool with
  | nil => cases hu
  | cons v pool ih =>
    by_cases hvu : v.label = u.label
    · have hvt : v.label ≠ t.label := hvu ▸ h
      rw [put, if_neg hvt, put, if_pos hvu, put, if_pos hvu, put, if_neg h]
    · have hpool : u.label ∈ pool.map label := (List.mem_cons.mp hu).resolve_left (Ne.symm hvu)
      by_cases hvt : v.label = t.label
      · rw [put, if_pos hvt, put, if_neg h.symm, put, if_neg hvu, put, if_pos hvt]
      · rw [put, if_neg hvt, put, if_neg hvu, ih hpool, put, if_neg hvu, put, if_neg hvt]

/-! ## All tokens of a pool -/

theorem merge_cons (base : List Token) (t : Token) (overrides : List Token) :
    merge base (t :: overrides) = merge (put t base) overrides :=
  rfl

theorem merge_concat (base overrides : List Token) (t : Token) :
    merge base (overrides ++ [t]) = put t (merge base overrides) :=
  List.foldl_append

theorem mem_of_mem_merge (h : u ∈ merge base overrides) : u ∈ base ∨ u ∈ overrides := by
  induction overrides generalizing base with
  | nil => exact .inl h
  | cons t overrides ih =>
    rcases ih h with h | h
    · rcases mem_of_mem_put h with h | rfl
      · exact .inl h
      · exact .inr List.mem_cons_self
    · exact .inr (List.mem_cons_of_mem t h)

theorem map_label_merge (base overrides : List Token) :
    (merge base overrides).map label =
      base.map label ++ ((overrides.map label).filter (· ∉ base.map label)).eraseDups := by
  induction overrides generalizing base with
  | nil => exact (List.append_nil _).symm
  | cons t overrides ih =>
    rw [merge_cons, ih, map_label_put, List.map_cons]
    split
    · next h => rw [List.append_nil, List.filter_cons_of_neg (by simpa using h)]
    · next h =>
      have hlater : (overrides.map label).filter (· ∉ base.map label ++ [t.label]) =
          ((overrides.map label).filter (· ∉ base.map label)).filter (!· == t.label) := by
        rw [List.filter_filter]
        refine List.filter_congr fun l _ => Bool.eq_iff_iff.mpr ?_
        simp [and_comm]
      rw [hlater, List.filter_cons_of_pos (by simpa using h), List.eraseDups_cons,
        List.append_assoc, List.singleton_append]

/-- The last override of a label is the first token of that label. -/
theorem find?_merge (base overrides : List Token) (l : String) :
    (merge base overrides).find? (·.label = l) =
      (overrides.reverse.find? (·.label = l)).or (base.find? (·.label = l)) := by
  induction overrides generalizing base with
  | nil => rfl
  | cons t overrides ih =>
    rw [merge_cons, ih, find?_put, List.reverse_cons, List.find?_append, Option.or_assoc]
    by_cases hl : t.label = l <;> simp [hl]

/-- A token stays if no override has its label, and also if it is not the first of its label. -/
theorem getElem?_merge (h : base[i]? = some u)
    (hu : u.label ∉ overrides.map label ∨ u.label ∈ (base.take i).map label) :
    (merge base overrides)[i]? = some u := by
  induction overrides generalizing base with
  | nil => exact h
  | cons t overrides ih =>
    rw [List.map_cons, List.mem_cons, not_or] at hu
    refine ih (getElem?_put h (hu.imp_left And.left)) (hu.imp And.right fun hmem => ?_)
    -- Putting `t` leaves the labels before `i` as they are, so what comes before is still there.
    have hi : i ≤ (base.map label).length := by
      rw [List.length_map]
      exact Nat.le_of_lt (List.getElem?_eq_some_iff.mp h).1
    rw [List.map_take] at hmem ⊢
    rwa [map_label_put, List.take_append_of_le_length hi]

theorem mem_map_label_merge (hu : u ∈ overrides) : u.label ∈ (merge base overrides).map label := by
  rw [map_label_merge, List.mem_append, List.mem_eraseDups, List.mem_filter]
  by_cases h : u.label ∈ base.map label
  · exact .inl h
  · exact .inr ⟨List.mem_map_of_mem hu, decide_eq_true h⟩

/-- What is put again at the end need not have been put before, if no label is new. -/
theorem put_merge_put (hpool : ∀ u ∈ overrides, u.label ∈ pool.map label) (t : Token) :
    put t (merge (put t pool) overrides) = put t (merge pool overrides) := by
  induction overrides generalizing pool with
  | nil => exact put_put rfl pool
  | cons u overrides ih =>
    obtain ⟨hu, hpool⟩ := List.forall_mem_cons.mp hpool
    rw [merge_cons, merge_cons]
    by_cases h : u.label = t.label
    · rw [put_put h]
    · rw [put_comm h hu, ih fun v hv => mem_map_label_put (hpool v hv) u]

theorem merge_merge (base overrides : List Token) :
    merge (merge base overrides) overrides = merge base overrides := by
  -- From the end: only the last token of a label is left, which need not hold of the first one.
  induction overrides using List.reverseRecOn with
  | nil => rfl
  | append_singleton overrides t ih =>
    rw [merge_concat, merge_concat, put_merge_put (fun u hu => mem_map_label_merge hu), ih]

/-- The labels of `base` stay where they are, and those that only the overrides have come behind
them, each of them once, in the order in which they first come up. The first token of a label is the
last override of that label, and that of `base` if there is none. All other tokens of `base`, those
of labels that are not overridden and those that are not the first of their label, stay as they are.
Merging the same overrides once more changes nothing. -/
theorem merge_last_over_first (base overrides : List Token) :
    let merged := merge base overrides
    merged.map label =
        base.map label ++ ((overrides.map label).filter (· ∉ base.map label)).eraseDups ∧
      (∀ l, merged.find? (·.label = l) =
        (overrides.reverse.find? (·.label = l)).or (base.find? (·.label = l))) ∧
      (∀ i u, base[i]? = some u →
        u.label ∉ overrides.map label ∨ u.label ∈ (base.take i).map label →
          merged[i]? = some u) ∧
      merge merged overrides = merged :=
  ⟨map_label_merge base overrides, find?_merge base overrides, fun _ _ => getElem?_merge,
    merge_merge base overrides⟩

/-- A pool with two users, where the user and a shot, which is new, are overridden twice. The second
user stays. -/
theorem merge_last_over_first_twins :
    let user (name : String) : Token := ⟨"User", "<user>", some name⟩
    let shot (name : String) : Token := ⟨"Shot Name", "<shot name>", some name⟩
    let day : Token := ⟨"Day", "<DD>", some "21"⟩
    let base := [user "kieran", day, user "guest"]
    let overrides := [shot "sh010", user "ana", shot "sh020", user "ben"]
    let merged := merge base overrides
    (base[2]? = some (user "guest") ∧ "User" ∈ (base.take 2).map label) ∧
      merged.map label = ["User", "Day", "User", "Shot Name"] ∧
      merged.find? (·.label = "User") = some (user "ben") ∧
      merged.find? (·.label = "Shot Name") = some (shot "sh020") ∧
      merged[2]? = some (user "guest") ∧ merge merged overrides = merged := by
  intro user shot day base overrides merged
  have hguest : base[2]? = some (user "guest") := rfl
  have hlater : "User" ∈ (base.take 2).map label := by decide
  obtain ⟨hlabels, hfirst, hstays, hagain⟩ := merge_last_over_first base overrides
  exact ⟨⟨hguest, hlater⟩, hlabels.trans (by decide), (hfirst "User").trans (by decide),
    (hfirst "Shot Name").trans (by decide), hstays 2 (user "guest") hguest (.inr hlater), hagain⟩

end Relabel.Token
