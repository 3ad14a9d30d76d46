import Relabel.Proofs.Find.Legacy

/-!
# A star alone

A star takes no character that ends a line, so that it finds the lines of a name one by one and
leaves what ends them. A name of one line is found as a whole.

* `Find.InOneLine`: a match within one line that has at least so many characters.
* `Find.finds_lines`: the search takes the lines of a name, but for those that are too short.
* `Find.Pattern.apply_star`: what a star alone comes to, and when it takes the whole name.
-/

namespace Relabel.Find

variable {name l r s : List Char} {ls : List (List Char)} {b i j start : Nat}

/-! ## Lines -/

/-- A text with more lines behind it. -/
def withLines (l : List Char) (ls : List (List Char)) : List Char :=
  l ++ ls.flatMap fun l => '\n' :: l

theorem withLines_cons (l l' : List Char) (ls : List (List Char)) :
    withLines l (l' :: ls) = l ++ '\n' :: withLines l' ls := by
  simp [withLines]

theorem intercalate_cons (l : List Char) (ls : List (List Char)) :
    ['\n'].intercalate (l :: ls) = withLines l ls := by
  induction ls generalizing l with
  | nil => simp [withLines]
  | cons l' ls ih => rw [List.intercalate_cons_cons, ih, withLines_cons, List.append_assoc]; rfl

/-- Every text is made of lines. -/
theorem exists_lines (s : List Char) :
    ∃ l ls, (∀ l' ∈ l :: ls, '\n' ∉ l') ∧ s = withLines l ls := by
  induction s with
  | nil => exact ⟨[], [], by simp, rfl⟩
  | cons c s ih =>
    obtain ⟨l, ls, hls, rfl⟩ := ih
    by_cases hc : c = '\n'
    · refine ⟨[], l :: ls, List.forall_mem_cons.mpr ⟨List.not_mem_nil, hls⟩, ?_⟩
      rw [withLines_cons, hc]
      rfl
    · obtain ⟨hl, hls⟩ := List.forall_mem_cons.mp hls
      refine ⟨c :: l, ls, List.forall_mem_cons.mpr ⟨fun h => ?_, hls⟩, rfl⟩
      exact (List.mem_cons.mp h).elim (fun h => hc h.symm) hl

theorem splitOn_withLines (h : ∀ l' ∈ l :: ls, '\n' ∉ l') :
    (withLines l ls).splitOn '\n' = l :: ls := by
  rw [← intercalate_cons, List.splitOn_intercalate '\n' h (List.cons_ne_nil l ls)]

/-! ## Matches within a line -/

/-- A match within one line that has at least `b` characters. -/
def InOneLine (name : List Char) (b i j : Nat) : Prop :=
  i + b ≤ j ∧ j ≤ name.length ∧ OneLine name i j

theorem occurs_run : Occurs name [.run] i j ↔ InOneLine name 0 i j := by
  constructor
  · intro h
    cases h with
    | run hk hl h =>
      cases h with
      | nil hj => exact ⟨hk, hj, hl⟩
  · exact fun h => .run h.1 h.2.2 (.nil h.2.1)

theorem occurs_one_run : Occurs name [.one, .run] i j ↔ InOneLine name 1 i j := by
  rw [← Occurs.many_iff_one_run]
  constructor
  · intro h
    cases h with
    | many hk hl h =>
      cases h with
      | nil hj => exact ⟨hk, hj, hl⟩
  · exact fun h => .many h.1 h.2.2 (.nil h.2.1)

/-- No match goes on where a line ends. -/
theorem InOneLine.le_of_not_inLine {k : Nat} (h : InOneLine name b i j) (hik : i ≤ k)
    (hk : ¬ InLine name k) : j ≤ k :=
  Nat.le_of_not_lt fun hlt => hk (h.2.2 k hik hlt)

/-- The longest match from where a line begins is the line, if it is not too short. -/
theorem longest_line (hi : i ≤ name.length) (hs : name.drop i = l ++ s) (hl : '\n' ∉ l)
    (hend : ¬ InLine name (i + l.length)) (hb : b ≤ l.length) :
    Longest (InOneLine name b) i (i + l.length) := by
  have hlen := congrArg List.length hs
  rw [List.length_drop, List.length_append] at hlen
  refine ⟨⟨by omega, by omega, fun m h1 h2 => ?_⟩, fun j h => ?_⟩
  · have hlt : m - i < l.length := by omega
    have hm : name[m]? = l[m - i]? := by
      rw [← List.getElem?_append_left hlt, ← hs, List.getElem?_drop, Nat.add_sub_cancel' h1]
    exact ⟨l[m - i], hm.trans (List.getElem?_eq_getElem hlt),
      fun hc => hl (hc ▸ List.getElem_mem hlt)⟩
  · exact h.le_of_not_inLine (Nat.le_add_right i _) hend

/-- What stands for a line that is found, and for one that is too short. -/
def Part.ofLine (b : Nat) (r l : List Char) : List Char := if l.length < b then l else r

/-- The search takes a line that is not too short, and goes on where it ends. There an empty match
does not count if the line has been taken. -/
theorem finds_line {t : List Char → List Char} (hb : b ≤ 1) (hi : i ≤ name.length)
    (hs : name.drop i = l ++ s) (hl : '\n' ∉ l) (hend : ¬ InLine name (i + l.length))
    (hrest : ∀ closed, (b = 0 → closed = true) →
      ∃ spans, Finds (InOneLine name b) (i + l.length) closed spans ∧
        ∀ r, splice name r (i + l.length) spans = t r) :
    ∃ spans, Finds (InOneLine name b) i false spans ∧
      ∀ r, splice name r i spans = Part.ofLine b r l ++ t r := by
  unfold Part.ofLine
  split
  · next hshort =>
    obtain rfl : l = [] := List.eq_nil_of_length_eq_zero (by omega)
    obtain ⟨spans, hf, hr⟩ := hrest false fun h0 => by omega
    exact ⟨spans, hf, hr⟩
  · next hlong =>
    have hlongest := longest_line hi hs hl hend (Nat.le_of_not_lt hlong)
    obtain ⟨spans, hf, hr⟩ := hrest true fun _ => rfl
    refine ⟨(i, i + l.length) :: spans, .here hlongest nofun hf, fun r => ?_⟩
    rw [splice, hr, Nat.sub_self, List.take_zero, List.nil_append]

/-- The search takes the lines of a name one by one, but for those that are too short. -/
theorem finds_lines (hb : b ≤ 1) (hi : i ≤ name.length) (hls : ∀ l' ∈ l :: ls, '\n' ∉ l')
    (hs : name.drop i = withLines l ls) :
    ∃ spans, Finds (InOneLine name b) i false spans ∧ ∀ r, splice name r i spans =
      withLines (Part.ofLine b r l) (ls.map (Part.ofLine b r)) := by
  induction ls generalizing l i with
  | nil =>
    obtain ⟨hl, -⟩ := List.forall_mem_cons.mp hls
    have hlen := congrArg List.length hs
    rw [List.length_drop, withLines, List.flatMap_nil, List.append_nil] at hlen
    have hk : i + l.length = name.length := by omega
    refine finds_line hb hi hs hl (fun h => by have := h.lt_length; omega) fun closed hclosed => ?_
    refine ⟨[], .done ?_, fun r => by rw [splice, hk, List.drop_length]; rfl⟩
    rintro j j' ⟨hj, ⟨hbj, hj', -⟩, hcount⟩
    exact hcount ⟨hclosed (by omega), by omega, by omega⟩
  | cons l' ls ih =>
    obtain ⟨hl, hls⟩ := List.forall_mem_cons.mp hls
    rw [withLines_cons] at hs
    have hk : name.drop (i + l.length) = '\n' :: withLines l' ls := by
      rw [← List.drop_drop, hs, List.drop_left]
    have hnl : name[i + l.length]? = some '\n' := by
      rw [← List.head?_drop, hk, List.head?_cons]
    have hend : ¬ InLine name (i + l.length) := fun h => (InLine.iff_ne hnl).mp h rfl
    have hlt := (List.getElem?_eq_some_iff.mp hnl).1
    obtain ⟨spans, hf, hr⟩ := ih (by omega) hls (drop_succ_of_drop hk)
    simp only [List.map_cons, withLines_cons, ← hr]
    refine finds_line hb hi hs hl hend fun closed hclosed => ⟨spans, .skip (fun j hj => ?_) hf, ?_⟩
    · have := hj.1
      have := hj.le_of_not_inLine (Nat.le_refl _) hend
      exact ⟨hclosed (by omega), by omega⟩
    · intro r
      have hlt : ∀ p ∈ spans, i + l.length < p.1 :=
        fun _ hp => hf.le_of_mem (fun _ _ h => Nat.le_of_add_right_le h.1) hp
      exact splice_of_lt (hk.trans (by rw [drop_succ_of_drop hk])) hlt

/-! ## Patterns -/

namespace Pattern

/-- A pattern whose matches are those within one line is put for the lines of a name. -/
theorem apply_of_inOneLine {find name : String} (hne : find ≠ "") (hb : b ≤ 1)
    (h : ∀ i j, Occurs name.toList (find.toList.map Piece.ofChar) i j ↔
      InOneLine name.toList b i j) (r : String) :
    apply ⟨find, .anySequence⟩ name r = String.ofList
      (['\n'].intercalate ((name.toList.splitOn '\n').map (Part.ofLine b r.toList))) := by
  have htable : Tabulates (InOneLine name.toList b) name.toList.length 0
      (firstLengths (branches .anySequence find.toList) name.toList) := by
    rw [branches, firstLengths_singleton]
    exact tabulates_lengths.congr h
  obtain ⟨spans, hspans, happly⟩ := apply_eq_splice hne
    (fun i j h => ⟨Nat.le_of_add_right_le h.1, h.2.1⟩) htable
  obtain ⟨l, ls, hls, hlines⟩ := exists_lines name.toList
  have hdrop : name.toList.drop 0 = withLines l ls := hlines
  obtain ⟨spans', hspans', hsplice⟩ := finds_lines hb (Nat.zero_le _) hls hdrop
  rw [happly, hspans.unique hspans', hsplice, hlines, splitOn_withLines hls, List.map_cons,
    intercalate_cons]

/-- The least length of a line that a star alone takes in a name. -/
def leastLine (mode : Mode) (name : String) : Nat := if mode = .legacy ∧ name ≠ "" then 1 else 0

theorem apply_star_lines (mode : Mode) (name r : String) :
    apply ⟨"*", mode⟩ name r = String.ofList (['\n'].intercalate
      ((name.toList.splitOn '\n').map (Part.ofLine (leastLine mode name) r.toList))) := by
  cases mode with
  | anySequence =>
    exact apply_of_inOneLine (by decide) (Nat.zero_le 1) (fun _ _ => occurs_run) r
  | legacy =>
    by_cases hname : name = ""
    · subst hname
      rw [apply_legacy_nil (by decide)]
      exact String.toList_injective (by simp [leastLine, Part.ofLine, List.splitOn_eq_singleton])
    · -- The only other alternative is that of an empty name.
      have hlist : name.toList ≠ [] := by simpa using hname
      have hone : apply ⟨"*", .legacy⟩ name r = apply ⟨"?*", .anySequence⟩ name r := by
        rw [apply, apply, parts_of_ne (by decide), parts_of_ne (by decide)]
        exact congrArg _ (congrArg _ (parts_legacy_star hlist [] List.not_mem_nil))
      rw [hone, apply_of_inOneLine (b := 1) (by decide) (Nat.le_refl 1) (fun _ _ => occurs_one_run),
        leastLine, if_pos ⟨rfl, hname⟩]

theorem ofLine_leastLine (mode : Mode) (name : String) (r : List Char) :
    Part.ofLine (leastLine mode name) r =
      fun l => if mode = .legacy ∧ name ≠ "" ∧ l = [] then [] else r := by
  funext l
  unfold Part.ofLine leastLine
  by_cases hm : mode = .legacy ∧ name ≠ ""
  · cases l <;> simp [hm]
  · rw [if_neg hm, if_neg (Nat.not_lt_zero _), if_neg fun h => hm ⟨h.1, h.2.1⟩]

/-- A star alone is put for each line of a name, and what ends the lines is kept. In legacy mode
empty lines are kept too, but for an empty name. So the whole name gives way to one copy of every
replacement if and only if it is one line. -/
theorem apply_star [Engine] (mode : Mode) : ∃ p, compile "*" mode = .ok p ∧ ∀ name : String,
    (∀ r : String, p.apply name r = String.ofList (['\n'].intercalate
      ((name.toList.splitOn '\n').map fun l =>
        if mode = .legacy ∧ name ≠ "" ∧ l = [] then [] else r.toList))) ∧
    ((∀ r, p.apply name r = r) ↔ '\n' ∉ name.toList) := by
  have happly (name r : String) : apply ⟨"*", mode⟩ name r = String.ofList (['\n'].intercalate
      ((name.toList.splitOn '\n').map fun l =>
        if mode = .legacy ∧ name ≠ "" ∧ l = [] then [] else r.toList)) := by
    rw [apply_star_lines, ofLine_leastLine]
  refine ⟨⟨"*", mode⟩, compile_of_short mode (by decide), fun name => ⟨happly name, ?_, ?_⟩⟩
  · intro h hmem
    -- Where there are two lines what ends the first one is left, even of the empty replacement.
    obtain ⟨l, ls, hls, hlines⟩ := exists_lines name.toList
    have hempty := h ""
    rw [happly, hlines, splitOn_withLines hls, List.map_cons, intercalate_cons] at hempty
    cases ls with
    | nil =>
      rw [hlines, withLines, List.flatMap_nil, List.append_nil] at hmem
      exact hls l List.mem_cons_self hmem
    | cons l' ls =>
      have hlist := congrArg String.toList hempty
      rw [String.toList_ofList, List.map_cons, withLines_cons] at hlist
      exact List.append_ne_nil_of_right_ne_nil _ (List.cons_ne_nil _ _) hlist
  · intro h r
    have hname : ¬ (mode = .legacy ∧ name ≠ "" ∧ name.toList = []) := by simp +contextual
    rw [happly, List.splitOn_eq_singleton h, List.map_singleton, List.intercalate_singleton,
      if_neg hname, String.ofList_toList]

attribute [local instance] Engine.boundless in
/-- A name of two lines is not replaced as a whole. -/
theorem star_takes_lines_apart :
    (compile "*" .legacy).map (·.apply "a\nb" "x") = .ok "x\nx" ∧
      (compile "*" .anySequence).map (·.apply "a\nb" "x") = .ok "x\nx" :=
  ⟨congrArg Except.ok (by decide), congrArg Except.ok (by decide)⟩

end Pattern
end Relabel.Find
