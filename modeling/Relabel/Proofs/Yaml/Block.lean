import Mathlib.Data.List.Induction
import Relabel.Proofs.Yaml.Line

/-!
# Blocks of lines are read back

A text with line feeds is written as a block. The lines of the block are indented by more than the
line behind it; the header tells what becomes of the line ends that close it, and how deep the block
is indented if its first line does not show that.

* `BlockState.after`: where the reader is in a block after some text.
* `blockLines_blockText`: the lines are read back, from wherever the reader is.
* `blockScalar_blockText`: a whole block is read back.
-/

namespace Relabel.Yaml

variable {c : Char} {s t : List Char} {place : Place} {next : Next}

/-! ## Where the reader is -/

namespace BlockState

variable {b : BlockState}

/-- A line begins here. -/
def opened : BlockState → Bool
  | line _ => false
  | gap .. => true

/-- The line ends that have been read and are not yet part of the text. -/
def text : BlockState → List Char
  | line _ => []
  | gap first _ more => first ++ more

/-- Where the reader is after a character. -/
def step (b : BlockState) (c : Char) : BlockState :=
  match b with
  | line blank => if isBreak c then gap [c] blank [] else line blank
  | gap first blank more => if isBreak c then gap first blank (more ++ [c]) else line (isBlank c)

/-- Where the reader is after a text. -/
def after (b : BlockState) (s : List Char) : BlockState := s.foldl step b

theorem opened_step (b : BlockState) (c : Char) : (b.step c).opened = isBreak c := by
  cases b <;> cases h : isBreak c <;> simp [step, h, opened]

theorem text_step (b : BlockState) (c : Char) :
    (b.step c).text = if isBreak c then b.text ++ [c] else [] := by
  cases b <;> cases h : isBreak c <;> simp [step, h, text]

/-- The line end that is written behind a block. -/
def lineEnd : BlockState → List Char
  | line _ => ['\n']
  | gap .. => []

/-- The chomping leaves the text as it is at the end of the block. -/
def Closes (chomp : Chomping) : BlockState → Prop
  | line _ => chomp = .strip
  | gap first _ more => closingBreaks chomp first more = first ++ more

end BlockState

/-! ## Lines -/

theorem blockLines_spaces {chomp : Chomping} {indent n : Nat} (first more : List Char)
    (blank : Bool) (h : place.column + n ≤ indent) (s : List Char) :
    blockLines false chomp indent (.gap first blank more) place (spaces n ++ s) =
      blockLines false chomp indent (.gap first blank more) (place.afterAll (spaces n)) s := by
  induction n generalizing place with
  | zero => rfl
  | succ n ih =>
    have hc : (place.after ' ').column = place.column + 1 := rfl
    rw [spaces_succ, List.cons_append, blockLines.eq_def]
    dsimp only
    rw [if_pos (by simp; omega), ih (by omega)]
    rfl

/-- A line that is indented by less than the block ends it. -/
theorem blockLines_next {chomp : Chomping} {indent : Nat} (first more : List Char) (blank : Bool)
    (hn : next.Regular) (hi : next.indent < indent) (hp : place.column = 0) :
    blockLines false chomp indent (.gap first blank more) place next.text =
      .ok ⟨closingBreaks chomp first more, next.body, place.afterAll (spaces next.indent)⟩ := by
  have hcol := place.column_afterAll_spaces next.indent
  rw [Next.text, blockLines_spaces first more blank (by omega)]
  cases hn with
  | ended => rfl
  | @line k c r hc =>
    dsimp only at hi hcol ⊢
    have hsp : c ≠ ' ' := ne_of_isWordChar hc (by decide)
    have htab : c ≠ '\t' := ne_of_isWordChar hc (by decide)
    have hlt : (place.afterAll (spaces k)).column < indent := by omega
    rw [blockLines.eq_def]
    simp [hsp, htab, isBreak_of_isWordChar hc, hlt]

/-- A line end is put off. -/
theorem blockLines_break {chomp : Chomping} {indent : Nat} (b : BlockState) (hc : isBreak c = true)
    (s : List Char) : blockLines false chomp indent b place (c :: s) =
      blockLines false chomp indent (b.step c) (place.after c) s := by
  have hsp : c ≠ ' ' := by rintro rfl; cases hc
  have htab : c ≠ '\t' := by rintro rfl; cases hc
  rw [blockLines.eq_def]
  cases b <;> simp [BlockState.step, hc, hsp, htab]

/-- Any other character is read with the line ends before it. -/
theorem blockLines_char {chomp : Chomping} {indent : Nat} (b : BlockState) (hc : isBreak c = false)
    (hp : b.opened = true → place.column = 0) (s : List Char) :
    blockLines false chomp indent b place (lineIndent indent b.opened ++ c :: s) =
      (blockLines false chomp indent (b.step c)
        ((place.afterAll (lineIndent indent b.opened)).after c) s).map
          (·.before (b.text ++ [c])) := by
  cases b with
  | line blank =>
    change blockLines false chomp indent (.line blank) place (c :: s) = _
    rw [blockLines.eq_def]
    simp only [hc, Bool.false_eq_true, if_false, BlockState.step]
    rfl
  | gap first blank more =>
    have hcol := place.column_afterAll_spaces indent
    rw [hp rfl, Nat.zero_add] at hcol
    rw [lineIndent, BlockState.opened, if_pos rfl,
      blockLines_spaces first more blank (by have := hp rfl; omega), blockLines.eq_def]
    simp only [hcol, hc, Nat.lt_irrefl, decide_false, Bool.false_and, Bool.false_eq_true, if_false,
      BlockState.step]
    rfl

/-- A break opens a line, and is not indented. -/
theorem blockText_of_isBreak (n : Nat) (opened : Bool) (hc : isBreak c = true) (s : List Char) :
    blockText n opened (c :: s) = c :: blockText n true s := by
  rw [blockText, if_pos hc]

/-- The first character of a line is indented. -/
theorem blockText_of_not_isBreak (n : Nat) (opened : Bool) (hc : isBreak c = false)
    (s : List Char) :
    blockText n opened (c :: s) = lineIndent n opened ++ c :: blockText n false s := by
  rw [blockText, hc]
  rfl

theorem blockText_ne_nil (n : Nat) (opened : Bool) (hs : s ≠ []) : blockText n opened s ≠ [] := by
  obtain ⟨c, s, rfl⟩ := List.exists_cons_of_ne_nil hs
  cases hc : isBreak c with
  | true => simp [blockText_of_isBreak n opened hc]
  | false => simp [blockText_of_not_isBreak n opened hc]

/-- The lines of a block are read back, from wherever the reader is. -/
theorem blockLines_blockText {chomp : Chomping} {indent : Nat} {b : BlockState}
    (hc : (b.after s).Closes chomp) (hn : next.Regular) (hi : next.indent < indent)
    (hp : b.opened = true → place.column = 0) :
    blockLines false chomp indent b place
        (blockText indent b.opened s ++ ((b.after s).lineEnd ++ next.text)) =
      .ok ⟨b.text ++ s, next.body, place.afterAll
        (blockText indent b.opened s ++ ((b.after s).lineEnd ++ spaces next.indent))⟩ := by
  induction s generalizing b place with
  | nil =>
    cases b with
    | line blank =>
      obtain rfl : chomp = .strip := hc
      exact (blockLines_break (.line blank) rfl _).trans
        (blockLines_next ['\n'] [] blank hn hi rfl)
    | gap first blank more =>
      have hc : closingBreaks chomp first more = first ++ more := hc
      exact (blockLines_next first more blank hn hi (hp rfl)).trans (by rw [hc, List.append_nil]; rfl)
  | cons c s ih =>
    have ht := b.text_step c
    have ho := b.opened_step c
    cases hb : isBreak c with
    | true =>
      have h : blockLines false chomp indent (b.step c) (place.after c) _ = _ :=
        ih hc fun _ => by rw [Place.after_of_isBreak hb]
      rw [hb] at ho ht
      rw [ho, ht] at h
      rw [blockText_of_isBreak _ _ hb, List.cons_append, blockLines_break b hb]
      exact h.trans (by rw [if_pos rfl, List.append_assoc]; rfl)
    | false =>
      rw [hb] at ho ht
      have h : blockLines false chomp indent (b.step c)
          ((place.afterAll (lineIndent indent b.opened)).after c) _ = _ :=
        ih hc fun h => absurd h (by simp [ho])
      rw [ho, ht] at h
      rw [blockText_of_not_isBreak _ _ hb]
      simp only [List.append_assoc, List.cons_append]
      rw [blockLines_char b hb hp]
      refine (congrArg _ h).trans ?_
      simp [Except.map, Scanned.before, BlockState.after]

/-! ## Headers -/

/-- What becomes of the line ends that close a text: one line end is kept if it comes behind
something, and all are if there are more. -/
def chompingOf (s : List Char) : Chomping :=
  match s.reverse with
  | [] => .strip
  | c :: r =>
    if !isBreak c then .strip
    else match r with
      | [] => .keep
      | d :: _ => if isBreak d then .keep else .clip

/-- The header of a text. -/
def headerOf (s : List Char) : BlockHeader :=
  ⟨chompingOf s, if s.head?.any isLoose then some 2 else none⟩

/-- The sign of a chomping in a header. -/
def Chomping.sign : Chomping → List Char
  | strip => ['-']
  | clip => []
  | keep => ['+']

theorem blockSigns_eq (s : List Char) :
    blockSigns s = (if s.head?.any isLoose then ['2'] else []) ++ (chompingOf s).sign := by
  unfold blockSigns chompingOf
  congr 1
  cases s.reverse with
  | nil => rfl
  | cons c r =>
    by_cases hc : isBreak c
    · cases r with
      | nil => simp [hc, Chomping.sign]
      | cons d r => by_cases hd : isBreak d <;> simp [hc, hd, Chomping.sign]
    · simp [hc, Chomping.sign]

theorem blockHeader_blockSigns (s t : List Char) :
    blockHeader (blockSigns s ++ '\n' :: t) = .ok (headerOf s, '\n' :: t) := by
  rw [blockSigns_eq, headerOf]
  cases s.head?.any isLoose <;> cases chompingOf s <;> rfl

theorem BlockState.closes_chompingOf (hs : s ≠ []) :
    ((gap [] false []).after s).Closes (chompingOf s) := by
  induction s using List.reverseRecOn with
  | nil => exact absurd rfl hs
  | append_singleton r c _ =>
    rw [after, List.foldl_append, chompingOf, List.reverse_append]
    change ((after (gap [] false []) r).step c).Closes _
    cases hc : isBreak c with
    | false =>
      cases after (gap [] false []) r <;> simp [step, hc, Closes]
    | true =>
      induction r using List.reverseRecOn with
      | nil => simp [step, hc, Closes, after, closingBreaks]
      | append_singleton r d _ =>
        rw [List.reverse_append, after, List.foldl_append]
        change (((after (gap [] false []) r).step d).step c).Closes _
        cases hd : isBreak d <;> cases after (gap [] false []) r <;>
          simp [step, hc, hd, Closes, closingBreaks]

/-- The line end that must be written behind a text. -/
def lineEnd (s : List Char) : List Char := if s.getLast?.any isBreak then [] else ['\n']

theorem BlockState.lineEnd_after (hs : s ≠ []) (b : BlockState) :
    (b.after s).lineEnd = Yaml.lineEnd s := by
  induction s using List.reverseRecOn with
  | nil => exact absurd rfl hs
  | append_singleton r c _ =>
    rw [after, List.foldl_append, Yaml.lineEnd, List.getLast?_concat]
    change ((b.after r).step c).lineEnd = _
    cases hc : isBreak c <;> cases b.after r <;> simp [step, hc, lineEnd]

theorem lineEnd_congr {t : List Char} (h : s.getLast? = t.getLast?) : lineEnd s = lineEnd t := by
  rw [lineEnd, lineEnd, h]

theorem lineEnd_append (s : List Char) {t : List Char} (ht : t ≠ []) :
    lineEnd (s ++ t) = lineEnd t := by
  obtain ⟨c, t, rfl⟩ := List.exists_cons_of_ne_nil ht
  exact lineEnd_congr (by rw [List.getLast?_append, List.getLast?_cons, Option.some_or])

theorem lineEnd_of_line (h : ∀ c ∈ s, isBreak c = false) : lineEnd s = ['\n'] := by
  have : s.getLast?.any isBreak = false := by
    cases hs : s.getLast? with
    | none => rfl
    | some c => exact h c (List.mem_of_getLast? hs)
  rw [lineEnd, this]
  rfl

/-- Indentation leaves the end of a text alone. -/
theorem lineEnd_blockText (n : Nat) (opened : Bool) (s : List Char) :
    lineEnd (blockText n opened s) = lineEnd s := by
  refine lineEnd_congr ?_
  induction s generalizing opened with
  | nil => rfl
  | cons c s ih =>
    have hs (opened : Bool) : (c :: blockText n opened s).getLast? = (c :: s).getLast? := by
      rw [List.getLast?_cons, List.getLast?_cons, ih]
    cases hc : isBreak c with
    | true => rw [blockText_of_isBreak n opened hc, hs]
    | false =>
      rw [blockText_of_not_isBreak n opened hc, List.getLast?_append, hs, List.getLast?_cons]
      rfl

theorem Place.column_afterAll_lineEnd (p : Place) (s : List Char) (n : Nat) :
    (p.afterAll (s ++ (lineEnd s ++ spaces n))).column = n := by
  rw [lineEnd]
  split
  · next h =>
    obtain ⟨c, hs, hc⟩ := (Option.any_eq_true _ _).mp h
    obtain ⟨t, rfl⟩ := List.getLast?_eq_some_iff.mp hs
    rw [List.nil_append, afterAll_append, column_afterAll_spaces, afterAll_append, afterAll_cons,
      after_of_isBreak hc]
    exact Nat.zero_add n
  · exact p.column_afterAll_line s n

/-! ## Blocks -/

theorem openingBreaks_spaces (g n : Nat) (place : Place) (s : List Char) :
    openingBreaks g place (spaces n ++ s) = openingBreaks g (place.afterAll (spaces n)) s := by
  induction n generalizing place with
  | zero => rfl
  | succ n ih => exact ih (place.after ' ')

/-- The indentation shows in the first line unless that begins with a blank or a line end. -/
theorem openingBreaks_char (g : Nat) (place : Place) (hc : isBreak c = false)
    (hl : isBlank c = false) (s : List Char) : openingBreaks g place (c :: s) =
      .ok ⟨([], max g place.column), c :: s, place⟩ := by
  have hsp : c ≠ ' ' := by rintro rfl; cases hl
  have htab : c ≠ '\t' := by rintro rfl; cases hl
  rw [openingBreaks.eq_def]
  simp [hsp, htab, hc]

/-- A block is read back. -/
theorem blockScalar_blockText {base parent : Nat} (hne : s ≠ [])
    (hs : Shown s) (hn : next.Regular) (hi : next.indent < base + 2)
    (hb : parent ≤ base + 2) (hp : place.column = 0) :
    blockScalar false (headerOf s) base parent
        (blockText (base + 2) true s ++ (lineEnd s ++ next.text)) place =
      .ok ⟨s, next.body, place.afterAll
        (blockText (base + 2) true s ++ (lineEnd s ++ spaces next.indent))⟩ := by
  have hr : blockLines false (chompingOf s) (base + 2) (.gap [] false []) place
      (blockText (base + 2) true s ++ (_ ++ next.text)) = _ :=
    blockLines_blockText (BlockState.closes_chompingOf hne) hn hi fun _ => hp
  rw [BlockState.lineEnd_after hne] at hr
  refine Eq.trans ?_ hr
  unfold blockScalar headerOf
  cases hl : s.head?.any isLoose with
  | true => rfl
  | false =>
    obtain ⟨c, s, rfl⟩ := List.exists_cons_of_ne_nil hne
    have hl : c ≠ ' ' ∧ isBreak c = false := by simpa [isLoose] using hl
    have hbl : isBlank c = false := by
      cases hbl : isBlank c with
      | false => rfl
      | true => exact absurd (eq_space_of_isBlank (hs c (List.mem_cons_self ..)) hbl) hl.1
    have hcol := place.column_afterAll_spaces (base + 2)
    rw [hp, Nat.zero_add] at hcol
    rw [blockText_of_not_isBreak _ _ hl.2, lineIndent, if_pos rfl]
    simp only [List.append_assoc, List.cons_append, Bool.false_eq_true, if_false]
    rw [openingBreaks_spaces, openingBreaks_char _ _ hl.2 hbl,
      blockLines_spaces [] [] false (by omega)]
    simp only [bind, Except.bind, hcol, Nat.zero_max, Nat.max_eq_left hb]

end Relabel.Yaml
