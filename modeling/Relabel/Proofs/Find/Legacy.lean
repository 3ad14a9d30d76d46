import Relabel.Proofs.Find.Substitution

/-!
# Stars that cut a find text

In legacy mode a star is the choice "an empty name, or at least one character", and the choice is
not kept together: the alternatives of a find text are what its expression has between its bars
(`source_eq_intercalate`). On a name with characters every alternative but the last one is dead,
so that what stands before the last star does not count (`apply_legacy_star`).
-/

namespace Relabel.Find

variable {name : List Char} {ps opening : List Piece} {ds bs : List (List Piece)} {i j : Nat}

/-! ## The alternatives of a find text -/

theorem legacyBranches_cons {c : Char} (s : List Char) (hc : c ≠ '*') :
    legacyBranches opening (c :: s) = legacyBranches (opening ++ [Piece.ofChar c]) s := by
  rw [legacyBranches]
  exact hc

theorem legacyBranches_ne_nil (s : List Char) : legacyBranches opening s ≠ [] := by
  induction s generalizing opening with
  | nil => exact List.cons_ne_nil _ _
  | cons c s ih =>
    by_cases hc : c = '*'
    · rw [hc, legacyBranches]
      exact List.cons_ne_nil _ _
    · rw [legacyBranches_cons s hc]
      exact ih

/-- Without a star there is one alternative. -/
theorem legacyBranches_of_not_mem {s : List Char} (hs : '*' ∉ s) :
    legacyBranches opening s = [opening ++ s.map Piece.ofChar] := by
  induction s generalizing opening with
  | nil => rw [legacyBranches, List.map_nil, List.append_nil]
  | cons c s ih =>
    obtain ⟨hc, hs⟩ := List.ne_and_not_mem_of_not_mem_cons hs
    rw [legacyBranches_cons s hc.symm, ih hs, List.map_cons, List.append_assoc]
    rfl

/-- The first alternative ends at the first star. -/
theorem legacyBranches_first {u : List Char} (hu : '*' ∉ u) (v : List Char) :
    legacyBranches opening (u ++ '*' :: v) =
      (opening ++ u.map Piece.ofChar ++ [.atStart, .atEnd]) :: legacyBranches [.many] v := by
  induction u generalizing opening with
  | nil => rw [List.map_nil, List.append_nil, List.nil_append, legacyBranches]
  | cons c u ih =>
    obtain ⟨hc, hu⟩ := List.ne_and_not_mem_of_not_mem_cons hu
    rw [List.cons_append, legacyBranches_cons _ hc.symm, ih hu, List.map_cons,
      List.append_assoc opening, List.singleton_append]

/-- The last alternative begins at the last star, and every other one ends in the start and the
end of the name. -/
theorem legacyBranches_last (opening : List Piece) (u v : List Char) :
    ∃ ds, (∀ d ∈ ds, ∃ qs, d = qs ++ [.atStart, .atEnd]) ∧
      legacyBranches opening (u ++ '*' :: v) = ds ++ legacyBranches [.many] v := by
  induction u generalizing opening with
  | nil =>
    refine ⟨[opening ++ [.atStart, .atEnd]], ?_, ?_⟩
    · intro d hd
      exact ⟨opening, List.mem_singleton.mp hd⟩
    · rw [List.nil_append, legacyBranches]
      rfl
  | cons c u ih =>
    by_cases hc : c = '*'
    · obtain ⟨ds, hds, h⟩ := ih [.many]
      refine ⟨(opening ++ [.atStart, .atEnd]) :: ds, ?_, ?_⟩
      · intro d hd
        rcases List.mem_cons.mp hd with rfl | hd
        · exact ⟨opening, rfl⟩
        · exact hds d hd
      · rw [hc, List.cons_append, legacyBranches, h]
        rfl
    · rw [List.cons_append, legacyBranches_cons _ hc]
      exact ih _

/-- An alternative behind a star begins with a character. -/
theorem head?_of_mem_legacyBranches {b : List Piece} {s : List Char}
    (h : b ∈ legacyBranches (.many :: opening) s) : b.head? = some .many := by
  induction s generalizing opening with
  | nil =>
    obtain rfl := List.mem_singleton.mp h
    rfl
  | cons c s ih =>
    by_cases hc : c = '*'
    · rw [hc, legacyBranches] at h
      rcases List.mem_cons.mp h with rfl | h
      · rfl
      · exact ih h
    · rw [legacyBranches_cons s hc] at h
      exact ih h

/-! ## The expression of a find text -/

theorem Piece.eq_star_of_ofChar {c : Char} (h : Piece.ofChar c = .run) : c = '*' := by
  unfold Piece.ofChar at h
  split at h
  case h_4 => rfl
  all_goals cases h

theorem sourceOf_legacy {c : Char} (hc : c ≠ '*') :
    sourceOf .legacy c = (Piece.ofChar c).source := by
  unfold sourceOf
  split
  · rename_i h
    exact absurd (Piece.eq_star_of_ofChar h) hc
  · rfl

theorem intercalate_legacyBranches (s : List Char) :
    List.intercalate ['|'] ((legacyBranches opening s).map (·.flatMap Piece.source)) =
      opening.flatMap Piece.source ++ s.flatMap (sourceOf .legacy) := by
  induction s generalizing opening with
  | nil => simp [legacyBranches]
  | cons c s ih =>
    by_cases hc : c = '*'
    · have hne : (legacyBranches [.many] s).map (·.flatMap Piece.source) ≠ [] := by
        simpa using legacyBranches_ne_nil s
      rw [hc, legacyBranches, List.map_cons, List.intercalate_cons_of_ne_nil hne, ih]
      simp [sourceOf, Piece.ofChar, Piece.source]
    · rw [legacyBranches_cons s hc, ih, List.flatMap_cons, sourceOf_legacy hc]
      simp

/-- The alternatives are what the expression of a find text has between its bars. -/
theorem source_eq_intercalate (mode : Mode) (find : String) : source mode find =
    String.ofList
      (List.intercalate ['|'] ((branches mode find.toList).map (·.flatMap Piece.source))) := by
  cases mode with
  | legacy => rw [branches, intercalate_legacyBranches, source]; rfl
  | anySequence =>
    rw [branches, List.map_singleton, List.intercalate_singleton, List.flatMap_map, source]
    rfl

/-! ## Dead alternatives -/

/-- The start and the end of a name are one place on the empty name only. -/
theorem not_occurs_of_ne_nil (hname : name ≠ []) (i j : Nat) :
    ¬ Occurs name (ps ++ [.atStart, .atEnd]) i j := by
  intro h
  obtain ⟨k, -, h⟩ := Occurs.append_iff.mp h
  obtain ⟨rfl, h⟩ := Occurs.atStart_iff.mp h
  have := (Occurs.atEnd_iff.mp h).1
  exact hname (List.eq_nil_of_length_eq_zero this.symm)

theorem length_firstLengths : (firstLengths bs name).length = name.length + 1 := by
  induction bs with
  | nil => simp [firstLengths, emptyMatches]
  | cons b bs ih =>
    have h : firstLengths (b :: bs) name =
      List.zipWith Option.or (lengths b name) (firstLengths bs name) := rfl
    rw [h, List.length_zipWith, length_lengths, ih, Nat.min_self]

/-- Alternatives that do not occur do not count. -/
theorem firstLengths_append (h : ∀ d ∈ ds, ∀ i j, ¬ Occurs name d i j) :
    firstLengths (ds ++ bs) name = firstLengths bs name := by
  induction ds with
  | nil => rfl
  | cons d ds ih =>
    have hd := h d List.mem_cons_self
    have hds := ih fun d' hd' => h d' (List.mem_cons_of_mem d hd')
    have hlen : (lengths d name).length = (firstLengths bs name).length := by
      rw [length_lengths, length_firstLengths]
    rw [List.cons_append, ← tabulates_lengths.zipWith_or_right hd hlen, ← hds]
    rfl

/-- On a name with characters the last alternative alone counts, and it is that of `?*`. -/
theorem parts_legacy_star (hname : name ≠ []) (u : List Char) {v : List Char} (hv : '*' ∉ v) :
    parts (branches .legacy (u ++ '*' :: v)) name =
      parts (branches .anySequence ('?' :: '*' :: v)) name := by
  obtain ⟨ds, hds, h⟩ := legacyBranches_last [] u v
  have hdead : ∀ d ∈ ds, ∀ i j, ¬ Occurs name d i j := by
    intro d hd
    obtain ⟨qs, rfl⟩ := hds d hd
    exact not_occurs_of_ne_nil hname
  rw [parts, parts, branches, branches, h, firstLengths_append hdead,
    legacyBranches_of_not_mem hv, firstLengths_singleton, firstLengths_singleton]
  exact congrArg _ (lengths_congr fun _ _ => Occurs.many_iff_one_run)

/-! ## The empty name -/

/-- The piece may hold on the empty name. -/
def Piece.isVoid : Piece → Bool
  | .run | .atStart | .atEnd => true
  | .char _ | .one | .many => false

theorem lengths_nil : lengths ps [] = [if ps.all Piece.isVoid then some 0 else none] := by
  induction ps with
  | nil => rfl
  | cons p ps ih =>
    have h : lengths (p :: ps) [] = p.extend true [] (lengths ps []) := rfl
    rw [h, ih]
    cases p <;> rfl

theorem firstLengths_nil_of_head? (h : ∀ b ∈ bs, b.head? = some .many) :
    firstLengths bs [] = [none] := by
  induction bs with
  | nil => rfl
  | cons b bs ih =>
    have hb := h b List.mem_cons_self
    have hbs := ih fun b' hb' => h b' (List.mem_cons_of_mem b hb')
    have hfirst : firstLengths (b :: bs) [] =
      List.zipWith Option.or (lengths b []) (firstLengths bs []) := rfl
    rw [hfirst, hbs, lengths_nil]
    cases b with
    | nil => cases hb
    | cons p b =>
      cases hb
      rfl

theorem isVoid_ofChar {c : Char} (hc : c ≠ '*') :
    (Piece.ofChar c).isVoid = decide (c = '^' ∨ c = '$') := by
  unfold Piece.ofChar
  split <;> simp_all [Piece.isVoid]

/-- The empty name is a match if only starts and ends stand before the first star. -/
theorem parts_legacy_star_nil {u : List Char} (hu : '*' ∉ u) (v : List Char) :
    parts (branches .legacy (u ++ '*' :: v)) [] =
      if u.all (fun c => decide (c = '^' ∨ c = '$')) then [.found []] else [] := by
  have hall : (u.map Piece.ofChar ++ [Piece.atStart, Piece.atEnd]).all Piece.isVoid =
      u.all (fun c => decide (c = '^' ∨ c = '$')) := by
    rw [List.all_append, List.all_map]
    have : [Piece.atStart, Piece.atEnd].all Piece.isVoid = true := rfl
    rw [this, Bool.and_true, Bool.eq_iff_iff, List.all_eq_true, List.all_eq_true]
    refine forall₂_congr fun c hc => ?_
    rw [Function.comp, isVoid_ofChar (ne_of_mem_of_not_mem hc hu)]
  have hrest := firstLengths_nil_of_head? fun b (hb : b ∈ legacyBranches [.many] v) =>
    head?_of_mem_legacyBranches hb
  have hfirst : firstLengths (branches .legacy (u ++ '*' :: v)) [] =
      List.zipWith Option.or (lengths (u.map Piece.ofChar ++ [.atStart, .atEnd]) [])
        (firstLengths (legacyBranches [.many] v) []) := by
    rw [branches, legacyBranches_first hu, List.nil_append]
    rfl
  rw [parts, hfirst, hrest, lengths_nil, hall]
  split <;> rfl

/-! ## Patterns -/

namespace Pattern

/-- A text with a star is cut by its first star. -/
theorem eq_takeWhile_append {s : List Char} (h : '*' ∈ s) :
    ∃ t, s = s.takeWhile (· ≠ '*') ++ '*' :: t := by
  induction s with
  | nil => cases h
  | cons c s ih =>
    by_cases hc : c = '*'
    · exact ⟨s, by simp [hc]⟩
    · obtain ⟨t, ht⟩ := ih ((List.mem_cons.mp h).resolve_left (Ne.symm hc))
      refine ⟨t, ?_⟩
      rw [List.takeWhile_cons_of_pos (by simpa using hc), List.cons_append, ← ht]

theorem apply_legacy_nil {find : String} (h : '*' ∈ find.toList) (r : String) :
    apply ⟨find, .legacy⟩ "" r =
      if (find.toList.takeWhile (· ≠ '*')).all (fun c => c = '^' ∨ c = '$') then r else "" := by
  obtain ⟨t, ht⟩ := eq_takeWhile_append h
  have hpre : '*' ∉ find.toList.takeWhile (· ≠ '*') := fun hmem => by
    have := List.all_takeWhile (p := (· ≠ '*')) (l := find.toList)
    simpa using List.all_eq_true.mp this _ hmem
  have hne : find ≠ "" := by
    rintro rfl
    cases h
  have hparts := parts_legacy_star_nil hpre t
  rw [← ht] at hparts
  rw [apply, parts_of_ne hne, String.toList_empty, hparts]
  split
  · simp [Part.replaced]
  · rfl

theorem toList_star (u v : String) : (u ++ "*" ++ v).toList = u.toList ++ '*' :: v.toList := by
  simp

/-- In legacy mode a find text with a star finds in a name with characters what `?*` and the text
behind its last star find where `*` is any run; the text before that star does not count. The
empty name is found if nothing but starts and ends stand before the first star, and left as it is
otherwise. -/
theorem apply_legacy_star [Engine] {u v : String} {p q : Pattern} (hv : '*' ∉ v.toList)
    (hp : compile (u ++ "*" ++ v) .legacy = .ok p) (hq : compile ("?*" ++ v) .anySequence = .ok q)
    (r : String) :
    (∀ name, name ≠ "" → p.apply name r = q.apply name r) ∧
    (∀ u' p', compile (u' ++ "*" ++ v) .legacy = .ok p' →
      ∀ name, name ≠ "" → p'.apply name r = p.apply name r) ∧
    p.apply "" r =
      if ((u ++ "*" ++ v).toList.takeWhile (· ≠ '*')).all (fun c => c = '^' ∨ c = '$') then r
      else "" := by
  have hne : ∀ w, w ++ "*" ++ v ≠ "" := by simp
  have hsome : ∀ {w p'}, compile (w ++ "*" ++ v) .legacy = .ok p' →
      ∀ name, name ≠ "" → p'.apply name r = q.apply name r := by
    intro w p' hp' name hname
    have hlist : name.toList ≠ [] := by simpa using hname
    have hq' : ("?*" ++ v).toList = '?' :: '*' :: v.toList := by simp
    obtain rfl := eq_of_compile hp'
    obtain rfl := eq_of_compile hq
    rw [apply, apply, parts_of_ne (hne w), parts_of_ne (by simp), toList_star, hq',
      parts_legacy_star hlist _ hv]
  refine ⟨hsome hp, fun u' p' hp' name hname => ?_, ?_⟩
  · rw [hsome hp' name hname, hsome hp name hname]
  · obtain rfl := eq_of_compile hp
    exact apply_legacy_nil (by simp) r

attribute [local instance] Engine.boundless in
theorem apply_legacy_star_two :
    '*' ∉ "b?".toList ∧ compile ("^*x" ++ "*" ++ "b?") .legacy = .ok ⟨"^*x*b?", .legacy⟩ ∧
      compile ("?*" ++ "b?") .anySequence = .ok ⟨"?*b?", .anySequence⟩ ∧
      apply ⟨"^*x*b?", .legacy⟩ "a\nabcab" "R" = apply ⟨"?*b?", .anySequence⟩ "a\nabcab" "R" ∧
      apply ⟨"^*x*b?", .legacy⟩ "" "R" = "R" := by
  have hv : '*' ∉ "b?".toList := by decide
  have h := apply_legacy_star (u := "^*x") (p := ⟨"^*x*b?", .legacy⟩) hv rfl rfl "R"
  exact ⟨hv, rfl, rfl, h.1 "a\nabcab" (by decide), h.2.2.trans (by decide)⟩

example : apply ⟨"^*x*b?", .legacy⟩ "a\nabcab" "R" = "a\nRab" := by decide

end Pattern
end Relabel.Find
