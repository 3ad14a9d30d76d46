import Relabel.Proofs.Find.Legacy
import Relabel.Proofs.Text.Replacing

/-!
# Find texts without stars

A find text without a star has one alternative, which is the same in both modes. One that has no
other wildcards either, but for a start before it or an end behind it, finds itself and nothing
else.

* `Find.occurs_chars_append`: some characters occur where they stand.
* `Find.replaced_cut_chars`: replacing the matches of some characters is replacing a piece of text.
* `Find.Pattern.apply_of_single`: a pattern that has a single match.
* `Find.Pattern.apply_of_plain`: what plain texts and anchored ones come to.
-/

namespace Relabel.Find

variable {name r s w : List Char} {ps : List Piece} {i j k : Nat} {closed : Bool} {m : Lengths}

/-! ## Characters -/

/-- Some characters occur where they stand. -/
theorem occurs_chars_append : Occurs name (w.map .char ++ ps) i j ↔
    w <+: name.drop i ∧ Occurs name ps (i + w.length) j := by
  induction w generalizing i with
  | nil => simp
  | cons c w ih =>
    have hprefix : c :: w <+: name.drop i ↔ name[i]? = some c ∧ w <+: name.drop (i + 1) := by
      rw [List.cons_prefix_iff]
      constructor
      · rintro ⟨t, ht, hw⟩
        refine ⟨?_, ?_⟩
        · rw [← List.head?_drop, ht, List.head?_cons]
        · rwa [drop_succ_of_drop ht]
      · rintro ⟨hc, hw⟩
        obtain ⟨hi, rfl⟩ := List.getElem?_eq_some_iff.mp hc
        exact ⟨name.drop (i + 1), List.drop_eq_getElem_cons hi, hw⟩
    rw [List.map_cons, List.cons_append, Occurs.char_iff, ih, hprefix, and_assoc, List.length_cons,
      Nat.add_right_comm, Nat.add_assoc]

theorem occurs_nil : Occurs name [] i j ↔ i = j ∧ i ≤ name.length := by
  constructor
  · rintro ⟨h⟩
    exact ⟨rfl, h⟩
  · rintro ⟨rfl, h⟩
    exact .nil h

theorem occurs_chars : Occurs name (w.map .char) i j ↔
    w <+: name.drop i ∧ i + w.length = j ∧ j ≤ name.length := by
  rw [← List.append_nil (w.map Piece.char), occurs_chars_append, occurs_nil]
  constructor
  · rintro ⟨hw, rfl, hj⟩
    exact ⟨hw, rfl, hj⟩
  · rintro ⟨hw, rfl, hj⟩
    exact ⟨hw, rfl, hj⟩

/-- The length of the match of some characters, where they stand. -/
theorem entry_chars {e : Option Nat} (hi : i ≤ name.length)
    (h : Entry (Occurs name (w.map .char)) i e) :
    e = if w <+: name.drop i then some w.length else none := by
  refine h.unique ?_
  split
  · next hw =>
    have hlen := hw.length_le
    rw [List.length_drop] at hlen
    refine ⟨occurs_chars.mpr ⟨hw, rfl, by omega⟩, fun j hj => ?_⟩
    exact Nat.le_of_eq (occurs_chars.mp hj).2.1.symm
  · next hw => exact fun j hj => hw (occurs_chars.mp hj).1

/-- Replacing the matches of some characters is replacing a piece of text. -/
theorem replaced_cut_chars (hw : w ≠ [])
    (h : Tabulates (Occurs name (w.map .char)) name.length i m) (hi : i + s.length = name.length)
    (hs : name.drop i = s) :
    (cut k closed s m).flatMap (Part.replaced r) = Text.replaceFrom w r k s := by
  have hpos := List.length_pos_iff.mpr hw
  fun_induction cut k closed s m generalizing i with
  | case1 closed k c s e m ih =>
    rw [List.length_cons] at hi
    exact ih h.2 (by omega) (drop_succ_of_drop hs)
  | case2 closed c s k m ih =>
    rw [List.length_cons] at hi
    have he := entry_chars (by omega) h.1
    rw [hs] at he
    split at he
    · next hp =>
      obtain rfl : k = w.length - 1 := by
        have := Option.some.inj he
        omega
      rw [List.flatMap_cons, ih h.2 (by omega) (drop_succ_of_drop hs), Text.replaceFrom,
        if_pos (List.isPrefixOf_iff_prefix.mpr hp)]
      rfl
    · cases he
  | case3 c s m ih =>
    have he := entry_chars (by omega) h.1
    split at he
    · have := Option.some.inj he
      omega
    · cases he
  | case4 closed c s e m hsome hzero ih =>
    rw [List.length_cons] at hi
    have he := entry_chars (by omega) h.1
    rw [hs] at he
    have hp : ¬ w <+: c :: s := by
      intro hp
      rw [if_pos hp] at he
      exact hsome (w.length - 1) (he.trans (congrArg some (Nat.sub_add_cancel hpos).symm))
    rw [List.flatMap_cons, ih h.2 (by omega) (drop_succ_of_drop hs), Text.replaceFrom_miss hp]
    rfl
  | case5 m =>
    have he := entry_chars (by omega) h.1
    split at he
    · have := Option.some.inj he
      omega
    · cases he
  | case6 s k closed m h1 h2 h3 h4 h5 =>
    obtain rfl := h.eq_nil_of_stop hi h1 h3
    cases k <;> rfl

/-! ## Patterns -/

namespace Pattern

variable {find : String} {mode : Mode}

theorem branches_of_star_notMem (mode : Mode) {find : List Char} (h : '*' ∉ find) :
    branches mode find = [find.map Piece.ofChar] := by
  cases mode with
  | legacy => exact legacyBranches_of_not_mem h
  | anySequence => rfl

/-- Where there is no star the table is that of the only alternative. -/
theorem tabulates_of_star_notMem (mode : Mode) {find : List Char} (h : '*' ∉ find) :
    Tabulates (Occurs name (find.map Piece.ofChar)) name.length 0
      (firstLengths (branches mode find) name) := by
  rw [branches_of_star_notMem mode h, firstLengths_singleton]
  exact tabulates_lengths

theorem exists_spans (hne : find ≠ "") (h : '*' ∉ find.toList) (mode : Mode) (name : String) :
    ∃ spans, Finds (Occurs name.toList (find.toList.map Piece.ofChar)) 0 false spans ∧
      ∀ r : String, apply ⟨find, mode⟩ name r =
        String.ofList (splice name.toList r.toList 0 spans) :=
  apply_eq_splice hne (fun _ _ h => ⟨h.le, h.le_length⟩) (tabulates_of_star_notMem mode h)

/-- A pattern that has a single match in a name replaces that. -/
theorem apply_of_single (hne : find ≠ "") (h : '*' ∉ find.toList) {name : String} {a b : Nat}
    (hocc : ∀ i j, Occurs name.toList (find.toList.map Piece.ofChar) i j ↔ i = a ∧ j = b)
    (r : String) : apply ⟨find, mode⟩ name r =
      String.ofList (name.toList.take a ++ r.toList ++ name.toList.drop b) := by
  obtain ⟨spans, hfinds, happly⟩ := exists_spans hne h mode name
  have hab := (hocc a b).mpr ⟨rfl, rfl⟩
  have hsingle : Finds (Occurs name.toList (find.toList.map Piece.ofChar)) 0 false [(a, b)] := by
    refine .next ⟨Nat.zero_le a, hab, nofun⟩ ?_ ⟨hab, ?_⟩ (.done ?_)
    · exact fun i j hc => Nat.le_of_eq ((hocc i j).mp hc.2.1).1.symm
    · exact fun j hj => Nat.le_of_eq ((hocc a j).mp hj).2
    · -- The match would have to start at its own end, and be empty.
      rintro i j ⟨hi, hocc', hcount⟩
      obtain ⟨rfl, rfl⟩ := (hocc i j).mp hocc'
      exact hcount ⟨rfl, Nat.le_antisymm hab.le hi, rfl⟩
  rw [happly, hfinds.unique hsingle]
  rfl

theorem apply_of_none (hne : find ≠ "") (h : '*' ∉ find.toList) {name : String}
    (hocc : ∀ i j, ¬ Occurs name.toList (find.toList.map Piece.ofChar) i j) (r : String) :
    apply ⟨find, mode⟩ name r = name := by
  obtain ⟨spans, hfinds, happly⟩ := exists_spans hne h mode name
  rw [happly, hfinds.unique (.done fun i j hc => hocc i j hc.2.1)]
  exact String.ofList_toList

/-! ## Plain texts -/

/-- A text whose characters all stand for themselves. -/
def IsPlain (w : String) : Prop := ∀ c ∈ w.toList, c ∉ ['^', '$', '?', '*']

theorem IsPlain.pieces {w : String} (h : IsPlain w) :
    w.toList.map Piece.ofChar = w.toList.map .char :=
  List.map_congr_left fun c hc =>
    Piece.ofChar_of_not_isWildcard (isWildcard_eq_false_iff.mpr (h c hc))

theorem IsPlain.star_notMem {w : String} (h : IsPlain w) : '*' ∉ w.toList :=
  fun hs => h _ hs (by decide)

section

variable {w : String} (h : IsPlain w)
include h

theorem occurs_start : Occurs name (("^" ++ w).toList.map Piece.ofChar) i j ↔
    w.toList <+: name ∧ i = 0 ∧ j = w.toList.length := by
  have hpieces : ("^" ++ w).toList.map Piece.ofChar = .atStart :: w.toList.map .char := by
    rw [String.toList_append, List.map_append, h.pieces]
    rfl
  rw [hpieces, Occurs.atStart_iff, occurs_chars]
  constructor
  · rintro ⟨rfl, hw, rfl, -⟩
    exact ⟨hw, rfl, Nat.zero_add _⟩
  · rintro ⟨hw, rfl, rfl⟩
    exact ⟨rfl, hw, Nat.zero_add _, hw.length_le⟩

theorem occurs_stop : Occurs name ((w ++ "$").toList.map Piece.ofChar) i j ↔
    name.drop i = w.toList ∧ i ≤ name.length ∧ j = name.length := by
  have hpieces : (w ++ "$").toList.map Piece.ofChar = w.toList.map .char ++ [.atEnd] := by
    rw [String.toList_append, List.map_append, h.pieces]
    rfl
  rw [hpieces, occurs_chars_append, Occurs.atEnd_iff, occurs_nil]
  have hlen := List.length_drop (i := i) (l := name)
  constructor
  · rintro ⟨hw, hi, rfl, -⟩
    exact ⟨(hw.eq_of_length (by omega)).symm, by omega, hi⟩
  · rintro ⟨hw, hi, rfl⟩
    rw [hw] at hlen ⊢
    exact ⟨List.prefix_rfl, by omega, by omega, by omega⟩

theorem occurs_whole : Occurs name (("^" ++ w ++ "$").toList.map Piece.ofChar) i j ↔
    name = w.toList ∧ i = 0 ∧ j = name.length := by
  have hpieces : ("^" ++ w ++ "$").toList.map Piece.ofChar =
      .atStart :: (w ++ "$").toList.map Piece.ofChar := by
    rw [String.append_assoc, String.toList_append, List.map_append]
    rfl
  rw [hpieces, Occurs.atStart_iff, occurs_stop h]
  constructor
  · rintro ⟨rfl, hw, -, hj⟩
    exact ⟨hw, rfl, hj⟩
  · rintro ⟨hw, rfl, hj⟩
    exact ⟨rfl, hw, Nat.zero_le _, hj⟩

end

/-- A text opens a name if the name is that text and a rest. -/
theorem prefix_iff {w name : String} : w.toList <+: name.toList ↔ ∃ rest, name = w ++ rest := by
  constructor
  · rintro ⟨t, ht⟩
    exact ⟨String.ofList t, String.toList_injective (by simp [ht])⟩
  · rintro ⟨rest, rfl⟩
    simp

section

variable {w : String} (h : IsPlain w)
include h

/-- A plain text is replaced wherever it stands. -/
theorem apply_plain (hne : w ≠ "") (mode : Mode) (name r : String) :
    apply ⟨w, mode⟩ name r = Text.replace w r name := by
  have hlist : w.toList ≠ [] := by simpa using hne
  have htable : Tabulates (Occurs name.toList (w.toList.map .char)) name.toList.length 0
      (firstLengths (branches mode w.toList) name.toList) :=
    h.pieces ▸ tabulates_of_star_notMem mode h.star_notMem
  rw [apply, parts_of_ne hne, Text.replace, Text.replaceAll_eq hlist]
  exact congrArg _ (replaced_cut_chars hlist htable (Nat.zero_add _) rfl)

theorem apply_start (mode : Mode) (r : String) :
    (∀ rest, apply ⟨"^" ++ w, mode⟩ (w ++ rest) r = r ++ rest) ∧
      ∀ name, (∀ rest, name ≠ w ++ rest) → apply ⟨"^" ++ w, mode⟩ name r = name := by
  have hne : "^" ++ w ≠ "" := by simp
  have hs : '*' ∉ ("^" ++ w).toList := by simp [h.star_notMem]
  refine ⟨fun rest => ?_, fun name hname => apply_of_none hne hs (fun i j hocc => ?_) r⟩
  · rw [apply_of_single hne hs (a := 0) (b := w.toList.length) fun i j => by
      rw [occurs_start h]; simp]
    exact String.toList_injective (by simp)
  · obtain ⟨rest, hrest⟩ := prefix_iff.mp ((occurs_start h).mp hocc).1
    exact hname rest hrest

theorem apply_stop (mode : Mode) (r : String) :
    (∀ front, apply ⟨w ++ "$", mode⟩ (front ++ w) r = front ++ r) ∧
      ∀ name, (∀ front, name ≠ front ++ w) → apply ⟨w ++ "$", mode⟩ name r = name := by
  have hne : w ++ "$" ≠ "" := by simp
  have hs : '*' ∉ (w ++ "$").toList := by simp [h.star_notMem]
  refine ⟨fun front => ?_, fun name hname => apply_of_none hne hs (fun i j hocc => ?_) r⟩
  · have hocc : ∀ i j, Occurs (front ++ w).toList ((w ++ "$").toList.map Piece.ofChar) i j ↔
        i = front.toList.length ∧ j = (front ++ w).toList.length := by
      intro i j
      rw [occurs_stop h, String.toList_append]
      constructor
      · rintro ⟨hw, hi, hj⟩
        have hlen := congrArg List.length hw
        rw [List.length_drop] at hlen
        rw [List.length_append] at hi hlen
        exact ⟨by omega, hj⟩
      · rintro ⟨rfl, hj⟩
        exact ⟨List.drop_left, by simp, hj⟩
    rw [apply_of_single hne hs hocc]
    exact String.toList_injective (by simp)
  · obtain ⟨hw, -, -⟩ := (occurs_stop h).mp hocc
    refine hname (String.ofList (name.toList.take i)) (String.toList_injective ?_)
    rw [String.toList_append, String.toList_ofList, ← hw, List.take_append_drop]

theorem apply_whole (mode : Mode) (r : String) :
    apply ⟨"^" ++ w ++ "$", mode⟩ w r = r ∧
      ∀ name, name ≠ w → apply ⟨"^" ++ w ++ "$", mode⟩ name r = name := by
  have hne : "^" ++ w ++ "$" ≠ "" := by simp
  have hs : '*' ∉ ("^" ++ w ++ "$").toList := by simp [h.star_notMem]
  refine ⟨?_, fun name hname => apply_of_none hne hs (fun i j hocc => ?_) r⟩
  · rw [apply_of_single hne hs (a := 0) (b := w.toList.length) fun i j => by
      rw [occurs_whole h]; simp]
    exact String.toList_injective (by simp)
  · exact hname (String.toList_injective ((occurs_whole h).mp hocc).1)

end

/-- Without a star both modes are one. -/
theorem apply_mode (hs : '*' ∉ find.toList) (mode : Mode) (name r : String) :
    apply ⟨find, mode⟩ name r = apply ⟨find, .anySequence⟩ name r := by
  unfold apply parts
  rw [branches_of_star_notMem mode hs, branches_of_star_notMem .anySequence hs]
  rfl

theorem source_mode (hs : '*' ∉ find.toList) (mode : Mode) :
    Find.source mode find = Find.source .anySequence find := by
  cases mode with
  | anySequence => rfl
  | legacy =>
    refine congrArg String.ofList (List.flatMap_congr fun c hc => ?_)
    exact sourceOf_legacy fun heq => hs (heq ▸ hc)

/-- A find text without a star is taken in both modes or refused in both. -/
theorem compile_mode [Engine] (hs : '*' ∉ find.toList) (name r : String) :
    (compile find .legacy).map (·.apply name r) =
      (compile find .anySequence).map (·.apply name r) := by
  unfold compile
  rw [source_mode hs .legacy]
  split
  · rfl
  · split
    · rfl
    · exact congrArg Except.ok (apply_mode hs .legacy name r)

/-- A plain text is replaced wherever it stands, as a piece of text is. With a start before it it is
replaced at the front of a name, with an end behind it at the back, and with both if it is the whole
name; every other name stays as it is. That is what each of these find texts does if the engine
takes it, and it takes those of short texts. The mode does not count, for these and for all find
texts without a star. -/
theorem apply_of_plain [Engine] {w : String} (h : IsPlain w) (mode : Mode) :
    (w ≠ "" → ∀ p, compile w mode = .ok p → ∀ name r, p.apply name r = Text.replace w r name) ∧
    (∀ p, compile ("^" ++ w) mode = .ok p → ∀ r,
      (∀ rest, p.apply (w ++ rest) r = r ++ rest) ∧
      ∀ name, (∀ rest, name ≠ w ++ rest) → p.apply name r = name) ∧
    (∀ p, compile (w ++ "$") mode = .ok p → ∀ r,
      (∀ front, p.apply (front ++ w) r = front ++ r) ∧
      ∀ name, (∀ front, name ≠ front ++ w) → p.apply name r = name) ∧
    (∀ p, compile ("^" ++ w ++ "$") mode = .ok p → ∀ r,
      p.apply w r = r ∧ ∀ name, name ≠ w → p.apply name r = name) ∧
    (w.toList.length ≤ 998 → ∀ find ∈ [w, "^" ++ w, w ++ "$", "^" ++ w ++ "$"],
      ∃ p, compile find mode = .ok p) ∧
    ∀ find, '*' ∉ find.toList → ∀ name r, (compile find .legacy).map (·.apply name r) =
      (compile find .anySequence).map (·.apply name r) := by
  refine ⟨fun hne p hp => ?_, fun p hp => ?_, fun p hp => ?_, fun p hp => ?_,
    fun hlen find hf => ?_, fun find => compile_mode⟩
  · rw [eq_of_compile hp]
    exact apply_plain h hne mode
  · rw [eq_of_compile hp]
    exact apply_start h mode
  · rw [eq_of_compile hp]
    exact apply_stop h mode
  · rw [eq_of_compile hp]
    exact apply_whole h mode
  · have hshort : find.toList.length ≤ w.toList.length + 2 := by
      simp only [List.mem_cons, List.not_mem_nil, or_false] at hf
      rcases hf with rfl | rfl | rfl | rfl <;> simp
    exact ⟨_, compile_of_short mode (by omega)⟩

attribute [local instance] Engine.boundless in
/-- A text that overlaps itself and holds characters with a meaning in expressions. -/
theorem apply_of_plain_overlapping :
    IsPlain ".|." ∧ compile ".|." .legacy = .ok ⟨".|.", .legacy⟩ ∧
      apply ⟨".|.", .legacy⟩ "a.|.|.|.\n" "$1" = Text.replace ".|." "$1" "a.|.|.|.\n" ∧
      apply ⟨"^.|.", .legacy⟩ (".|." ++ "|.") "x" = "x|." ∧
      apply ⟨".|.$", .anySequence⟩ (".|" ++ ".|.") "x" = ".|x" ∧
      apply ⟨"^.|.$", .legacy⟩ ".|.|." "x" = ".|.|." := by
  have h : IsPlain ".|." := by simp [IsPlain]
  have hc : compile ".|." .legacy = .ok ⟨".|.", .legacy⟩ := compile_of_short _ (by decide)
  obtain ⟨hplain, hs, -, hw, -⟩ := apply_of_plain h .legacy
  obtain ⟨-, -, ht, -⟩ := apply_of_plain h .anySequence
  have hstart := hs _ (compile_of_short _ (by decide)) "x"
  have hstop := ht _ (compile_of_short _ (by decide)) "x"
  have hwhole := hw _ (compile_of_short _ (by decide)) "x"
  exact ⟨h, hc, hplain (by decide) _ hc _ _, hstart.1 _, hstop.1 _, hwhole.2 _ (by decide)⟩

end Pattern
end Relabel.Find
