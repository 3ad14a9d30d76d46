import Mathlib.Data.List.Induction
import Relabel.Proofs.Yaml.Line

/-!
# Quoted scalars are read back

Within quotes the written form keeps each blank and each line end apart from the other kind, and the
reader folds nothing but line feeds, which single quotes never hold.

* `singleQuoted_quotedLines`: single quotes.
* `escape?_escaped`: every character within double quotes stands for itself or is escaped.
* `doubleQuoted_escaped`: double quotes.
-/

namespace Relabel.Yaml

variable {c : Char} {s t rest : List Char} {place : Place}

/-! ## Pending blanks and line ends -/

namespace Pending

variable {p : Pending}

theorem isBreaks_addBlank (c : Char) : (p.addBlank c).isBreaks = p.isBreaks := by
  cases p <;> rfl

theorem text_addBlank (h : p.isBreaks = false) (c : Char) :
    (p.addBlank c).text = p.text ++ [c] := by
  cases p with
  | none | blanks => rfl
  | breaks => cases h

theorem isBreaks_addBreak (c : Char) : (p.addBreak c).isBreaks = true := by
  cases p <;> rfl

/-- What is pending stands for itself before `s`: no line end comes behind blanks, and no space
behind line ends, the first of which is no line feed. -/
def Keeps (p : Pending) (s : List Char) : Prop :=
  match p with
  | none => True
  | blanks _ => ∀ c ∈ s.head?, isBreak c = false
  | breaks first _ => first ≠ ['\n'] ∧ ∀ c ∈ s.head?, c ≠ ' '

theorem text_addBreak (h : p.Keeps (c :: s)) (hc : isBreak c = true) (hn : c ≠ '\n') :
    (p.addBreak c).text = p.text ++ [c] := by
  cases p with
  | none => simp [addBreak, text, hn]
  | blanks b => exact absurd hc (by simp [h c rfl])
  | breaks first more => simp [addBreak, text, h.1]

theorem keeps_addBreak (h : p.Keeps (c :: s)) (hc : isBreak c = true) (hn : c ≠ '\n')
    (hs : ∀ d ∈ s.head?, d ≠ ' ') : (p.addBreak c).Keeps s := by
  cases p with
  | none => exact ⟨by simpa using hn, hs⟩
  | blanks b => exact absurd hc (by simp [h c rfl])
  | breaks first more => exact ⟨h.1, hs⟩

theorem keeps_addBlank (h : p.Keeps (' ' :: s)) (hs : ∀ d ∈ s.head?, isBreak d = false) :
    (p.addBlank ' ').Keeps s := by
  cases p with
  | none | blanks => exact hs
  | breaks => exact absurd rfl (h.2 ' ' rfl)

end Pending

/-- A text without a pair has none at its front and none behind it. -/
theorem hasPair_cons {p : Char → Char → Bool} (h : hasPair p (c :: s) = false) :
    (∀ d ∈ s.head?, p c d = false) ∧ hasPair p s = false := by
  cases s with
  | nil => exact ⟨nofun, rfl⟩
  | cons d s =>
    rw [hasPair, Bool.or_eq_false_iff] at h
    exact ⟨by simpa using h.1, h.2⟩

/-! ## Single quotes -/

/-- A character that is neither blank nor line end stands where no mark of a document can. -/
theorem isDocumentMark_of_column (h : 0 < place.column) (s : List Char) :
    (place.column == 0 && isDocumentMark s) = false := by
  rw [beq_false_of_ne (Nat.ne_of_gt h), Bool.false_and]

section

variable {p : Pending}

theorem singleQuoted_break (h : isBreak c = true) (s : List Char) :
    singleQuoted p place (c :: s) = singleQuoted (p.addBreak c) (place.after c) s := by
  rw [singleQuoted.eq_def]
  exact if_pos h

theorem singleQuoted_blank (h : isBlank c = true) (hb : isBreak c = false) (s : List Char) :
    singleQuoted p place (c :: s) = singleQuoted (p.addBlank c) (place.after c) s := by
  rw [singleQuoted.eq_def]
  simp only [hb, h, if_true, Bool.false_eq_true, if_false]

theorem singleQuoted_char (hc : c ≠ '\'') (h : isBlank c = false) (hb : isBreak c = false)
    (hp : 0 < place.column) (s : List Char) : singleQuoted p place (c :: s) =
      (singleQuoted .none (place.after c) s).map (·.before (p.text ++ [c])) := by
  rw [singleQuoted.eq_def]
  simp only [hb, h, Bool.false_eq_true, if_false, isDocumentMark_of_column hp, beq_iff_eq, hc]
  rfl

theorem singleQuoted_quote (hp : 0 < place.column) (s : List Char) :
    singleQuoted p place ('\'' :: '\'' :: s) =
      (singleQuoted .none ((place.after '\'').after '\'') s).map (·.before (p.text ++ ['\''])) := by
  rw [singleQuoted.eq_def]
  simp only [isDocumentMark_of_column hp]
  rfl

theorem singleQuoted_close (hp : 0 < place.column) (rest : List Char) :
    singleQuoted p place ('\'' :: '\n' :: rest) =
      .ok ⟨p.text, '\n' :: rest, place.after '\''⟩ := by
  rw [singleQuoted.eq_def]
  simp only [isDocumentMark_of_column hp]
  rfl

end

/-- Indentation does not count. -/
theorem singleQuoted_spaces (first more : List Char) (n : Nat) (s : List Char) (place : Place) :
    singleQuoted (.breaks first more) place (spaces n ++ s) =
      singleQuoted (.breaks first more) (place.afterAll (spaces n)) s := by
  induction n generalizing place with
  | zero => rfl
  | succ n ih =>
    rw [spaces_succ, List.cons_append, singleQuoted_blank rfl rfl]
    exact ih (place.after ' ')

/-- Indentation is not part of the text. -/
theorem singleQuoted_lineIndent (p : Pending) (n : Nat) (s : List Char) (place : Place) :
    singleQuoted p place (lineIndent n p.isBreaks ++ s) =
      singleQuoted p (place.afterAll (lineIndent n p.isBreaks)) s := by
  cases p with
  | none | blanks => rfl
  | breaks first more => exact singleQuoted_spaces first more n s place

theorem column_lineIndent {n : Nat} {p : Pending} (place : Place) (hn : 0 < n)
    (hp : p.isBreaks = false → 0 < place.column) :
    0 < (place.afterAll (lineIndent n p.isBreaks)).column := by
  cases h : p.isBreaks with
  | false => exact hp h
  | true =>
    have := place.column_afterAll_spaces n
    rw [lineIndent, if_pos rfl]
    omega

/-- A text that may stand in single quotes on one line or more. -/
structure Quotable (s : List Char) : Prop where
  chars : ∀ c ∈ s, c ≠ '\n' ∧ isPrintable c = true
  spaceAfterBreak : hasPair (fun c d => isBreak c && d == ' ') s = false
  spaceBeforeBreak : hasPair (fun c d => c == ' ' && isBreak d) s = false

namespace Quotable

theorem tail (h : Quotable (c :: s)) : Quotable s where
  chars d hd := h.chars d (List.mem_cons_of_mem c hd)
  spaceAfterBreak := (hasPair_cons h.spaceAfterBreak).2
  spaceBeforeBreak := (hasPair_cons h.spaceBeforeBreak).2

theorem head (h : Quotable (c :: s)) : c ≠ '\n' ∧ isPrintable c = true :=
  h.chars c (List.mem_cons_self ..)

theorem head_of_isBreak (h : Quotable (c :: s)) (hc : isBreak c = true) :
    ∀ d ∈ s.head?, d ≠ ' ' := by
  simpa [hc] using (hasPair_cons h.spaceAfterBreak).1

theorem head_of_space (h : Quotable (' ' :: s)) : ∀ d ∈ s.head?, isBreak d = false := by
  simpa using (hasPair_cons h.spaceBeforeBreak).1

end Quotable

/-- A break opens a line, which is then indented. -/
theorem quotedLines_of_isBreak (n : Nat) (opened : Bool) (hc : isBreak c = true) (s : List Char) :
    quotedLines n opened (c :: s) = c :: quotedLines n true s := by
  rw [quotedLines, if_pos hc]

theorem quotedLines_of_not_isBreak (n : Nat) (opened : Bool) (hc : isBreak c = false)
    (s : List Char) : quotedLines n opened (c :: s) =
      lineIndent n opened ++ (if c = '\'' then [c, c] else [c]) ++ quotedLines n false s := by
  simp [quotedLines, hc, lineIndent]

/-- What single quotes hold is read back, whatever is pending before it. -/
theorem singleQuoted_quotedLines {n : Nat} {p : Pending} (h : Quotable s) (hn : 0 < n)
    (hk : p.Keeps s) (hp : p.isBreaks = false → 0 < place.column) :
    singleQuoted p place (quotedLines n p.isBreaks s ++ '\'' :: '\n' :: rest) =
      .ok ⟨p.text ++ s, '\n' :: rest, place.afterAll (quotedLines n p.isBreaks s ++ ['\''])⟩ := by
  induction s generalizing p place with
  | nil =>
    change singleQuoted p place (lineIndent n p.isBreaks ++ _) = _
    rw [singleQuoted_lineIndent, singleQuoted_close (column_lineIndent place hn hp), List.append_nil,
      Place.afterAll_append]
    rfl
  | cons c s ih =>
    have hcol := column_lineIndent place hn hp
    cases hc : isBreak c with
    | true =>
      have h' : singleQuoted (p.addBreak c) (place.after c) _ = _ :=
        ih h.tail (Pending.keeps_addBreak hk hc h.head.1 (h.head_of_isBreak hc))
          (by simp [p.isBreaks_addBreak])
      rw [p.isBreaks_addBreak] at h'
      rw [quotedLines_of_isBreak _ _ hc, List.cons_append, singleQuoted_break hc, h',
        p.text_addBreak hk hc h.head.1, List.append_assoc]
      rfl
    | false =>
      simp only [quotedLines_of_not_isBreak _ _ hc, List.append_assoc]
      rw [singleQuoted_lineIndent, Place.afterAll_append]
      generalize place.afterAll (lineIndent n p.isBreaks) = place at hcol ⊢
      have hafter (place : Place) : 0 < (place.after c).column := by
        rw [Place.after_of_not_isBreak hc]
        exact Nat.succ_pos _
      by_cases hq : c = '\''
      · subst hq
        have h' : singleQuoted .none ((place.after '\'').after '\'')
            (quotedLines n false s ++ '\'' :: '\n' :: rest) = _ :=
          ih (p := .none) h.tail trivial fun _ => hafter _
        rw [if_pos rfl, List.cons_append, List.singleton_append, singleQuoted_quote hcol, h']
        simp [Except.map, Scanned.before, Pending.text, Pending.isBreaks]
      rw [if_neg hq, List.singleton_append]
      cases hl : isBlank c with
      | true =>
        obtain rfl := eq_space_of_isBlank h.head.2 hl
        have hbr : p.isBreaks = false := by
          cases p with
          | none | blanks => rfl
          | breaks => exact absurd rfl (hk.2 ' ' rfl)
        have h' : singleQuoted (p.addBlank ' ') (place.after ' ') _ = _ :=
          ih h.tail (Pending.keeps_addBlank hk h.head_of_space) fun _ => hafter _
        rw [p.isBreaks_addBlank, hbr] at h'
        rw [singleQuoted_blank hl hc, h', p.text_addBlank hbr, List.append_assoc]
        rfl
      | false =>
        have h' : singleQuoted .none (place.after c)
            (quotedLines n false s ++ '\'' :: '\n' :: rest) = _ :=
          ih (p := .none) h.tail trivial fun _ => hafter _
        rw [singleQuoted_char hq hl hc hcol, h']
        simp [Except.map, Scanned.before, Pending.text, Pending.isBreaks]

/-! ## Numbers of characters -/

/-- A digit is read as it is written. -/
theorem hexDigit?_digitChar {n : Nat} (h : n < 16) : hexDigit? (Nat.digitChar n).toUpper = some n := by
  revert n
  decide

theorem hexNumber?_append (s : List Char) (c : Char) : hexNumber? (s ++ [c]) =
    (hexNumber? s).bind fun n => (hexDigit? c).map (16 * n + ·) := by
  rw [hexNumber?, List.foldlM_append]
  cases h : hexNumber? s with
  | none => rw [hexNumber?] at h; rw [h]; rfl
  | some n =>
    rw [hexNumber?] at h
    rw [h]
    cases h' : hexDigit? c <;> simp [h']

theorem hexNumber?_toDigits (k : Nat) :
    hexNumber? ((Nat.toDigits 16 k).map Char.toUpper) = some k := by
  induction k using Nat.strongRecOn with
  | _ k ih =>
    rw [Nat.toDigits_eq_if (by decide)]
    split
    · next h =>
      simp [hexNumber?, hexDigit?_digitChar h]
    · next h =>
      rw [List.map_append, List.map_singleton, hexNumber?_append, ih _ (by omega),
        hexDigit?_digitChar (Nat.mod_lt k (by decide))]
      simp only [Option.bind_some, Option.map_some]
      rw [Nat.div_add_mod]

theorem hexNumber?_zeros (n : Nat) (s : List Char) :
    hexNumber? (List.replicate n '0' ++ s) = hexNumber? s := by
  induction n with
  | zero => rfl
  | succ n ih => exact ih

theorem hexNumber?_hexText (n k : Nat) : hexNumber? (hexText n k) = some k := by
  rw [hexText, hexNumber?_zeros, hexNumber?_toDigits]

theorem length_hexText {n k : Nat} (h : (Nat.toDigits 16 k).length ≤ n) :
    (hexText n k).length = n := by
  simp only [hexText, List.length_append, List.length_replicate, List.length_map]
  omega

/-- The number of a character is read as this character. -/
theorem charOfNumber?_toNat (c : Char) : charOfNumber? c.toNat = some c := by
  have hv : c.toNat < 0xD800 ∨ 0xDFFF < c.toNat ∧ c.toNat < 0x110000 := c.valid
  have hb : (decide (c.toNat < 0xD800) || decide (0xDFFF < c.toNat) && decide (c.toNat ≤ 0x10FFFF)) =
      true := by
    simp only [Bool.or_eq_true, Bool.and_eq_true, decide_eq_true_eq]
    omega
  rw [charOfNumber?, if_pos (by simpa using hb), Char.ofNat_toNat]

/-- A character that is written as a number is read again. -/
theorem numberEscape?_hexText {n : Nat} (hc : (Nat.toDigits 16 c.toNat).length ≤ n) (t : List Char) :
    numberEscape? n (hexText n c.toNat ++ t) = some (c, n + 1) := by
  have hl := length_hexText hc
  have ht : (hexText n c.toNat ++ t).take n = hexText n c.toNat := by
    rw [List.take_append_of_le_length (Nat.le_of_eq hl.symm), List.take_of_length_le (Nat.le_of_eq hl)]
  simp [numberEscape?, ht, hl, hexNumber?_hexText, charOfNumber?_toNat]

theorem isWordChar_of_hexDigit? (h : (hexDigit? c).isSome = true) : isWordChar c = true := by
  have ha : c.isAlphanum = true := by
    delta Char.isAlphanum Char.isAlpha Char.isUpper Char.isLower
    simp only [Bool.or_eq_true,
      Bool.and_eq_true, decide_eq_true_eq]
    unfold hexDigit? at h
    split at h
    · next hd => exact .inr hd
    split at h
    · next hl =>
      simp only [Bool.and_eq_true, decide_eq_true_eq] at hl
      exact .inl (.inr ⟨hl.1, UInt32.le_trans hl.2 (by decide)⟩)
    split at h
    · next hu =>
      simp only [Bool.and_eq_true, decide_eq_true_eq] at hu
      exact .inl (.inl ⟨hu.1, UInt32.le_trans hu.2 (by decide)⟩)
    · cases h
  simp [isWordChar, ha]

/-- A number is written with letters and digits only. -/
theorem isWordChar_of_hexNumber? {k : Nat} (h : hexNumber? s = some k) :
    ∀ c ∈ s, isWordChar c = true := by
  induction s using List.reverseRecOn generalizing k with
  | nil => nofun
  | append_singleton s c ih =>
    rw [hexNumber?_append] at h
    obtain ⟨n, hn, hc⟩ := Option.bind_eq_some_iff.mp h
    obtain ⟨m, hm, -⟩ := Option.map_eq_some_iff.mp hc
    intro d hd
    rcases List.mem_append.mp hd with hd | hd
    · exact ih hn d hd
    · rw [List.mem_singleton.mp hd]
      exact isWordChar_of_hexDigit? (by rw [hm]; rfl)

/-! ## Double quotes -/

/-- What stands for `c` behind a backslash. -/
structure Escape (c : Char) (e : List Char) : Prop where
  chars : ∀ d ∈ e, isPrintable d = true ∧ isBreak d = false
  read (t : List Char) : escape? (e ++ t) = some (c, e.length)

/-- Some characters have a letter of their own. -/
theorem escape_letter {d : Char} (hp : isPrintable d = true) (hb : isBreak d = false)
    (h : ∀ t, escape? (d :: t) = some (c, 1)) : Escape c [d] where
  chars := by simp [hp, hb]
  read := h

/-- The others are written as a number. -/
theorem escape_hexText {n : Nat} {d : Char} (hc : (Nat.toDigits 16 c.toNat).length ≤ n)
    (hd : isWordChar d = true) (h : ∀ t, escape? (d :: t) = numberEscape? n t) :
    Escape c (d :: hexText n c.toNat) where
  chars := by
    have hw : ∀ x ∈ d :: hexText n c.toNat, isWordChar x = true :=
      List.forall_mem_cons.mpr ⟨hd, isWordChar_of_hexNumber? (hexNumber?_hexText n c.toNat)⟩
    exact fun x hx => ⟨isPrintable_of_isWordChar (hw x hx), isBreak_of_isWordChar (hw x hx)⟩
  read t := by
    rw [List.cons_append, h, numberEscape?_hexText hc, List.length_cons, length_hexText hc]

/-- A character stands for itself, or behind a backslash stands what it is read from. -/
theorem escaped_cases (c : Char) :
    (escaped c = [c] ∧ c ≠ '"' ∧ c ≠ '\\' ∧ isBreak c = false ∧ isPrintable c = true) ∨
      ∃ e, escaped c = '\\' :: e ∧ Escape c e := by
  unfold escaped
  split
  case h_15 =>
    next hn _ _ _ _ _ _ hq hs _ hl hp =>
    have hdigits {n : Nat} (hn : 0 < n) (h : c.toNat < 16 ^ n) :
        (Nat.toDigits 16 c.toNat).length ≤ n :=
      (Nat.length_toDigits_le_iff (by decide) hn).mpr h
    split
    · next h => exact .inl ⟨rfl, hq, hs, by simp_all [isBreak], h⟩
    right
    split
    · have hc := hdigits (n := 2) (by decide) (by omega)
      exact ⟨_, rfl, escape_hexText hc (by decide) fun _ => rfl⟩
    split
    · have hc := hdigits (n := 4) (by decide) (by omega)
      exact ⟨_, rfl, escape_hexText hc (by decide) fun _ => rfl⟩
    · have hv : c.toNat < 0xD800 ∨ 0xDFFF < c.toNat ∧ c.toNat < 0x110000 := c.valid
      have hc := hdigits (n := 8) (by decide) (by omega)
      exact ⟨_, rfl, escape_hexText hc (by decide) fun _ => rfl⟩
  all_goals exact .inr ⟨_, rfl, escape_letter (by decide) (by decide) fun _ => rfl⟩

section

variable {p : Pending}

/-- What has been read as an escape is skipped. -/
theorem doubleQuoted_skip (e s : List Char) (p : Pending) (place : Place) :
    doubleQuoted e.length p place (e ++ s) = doubleQuoted 0 p (place.afterAll e) s := by
  induction e generalizing place with
  | nil => rfl
  | cons c e ih =>
    rw [List.length_cons, List.cons_append, doubleQuoted.eq_def]
    exact ih (place.after c)

theorem doubleQuoted_blank (h : isBlank c = true) (hb : isBreak c = false) (s : List Char) :
    doubleQuoted 0 p place (c :: s) = doubleQuoted 0 (p.addBlank c) (place.after c) s := by
  rw [doubleQuoted.eq_def]
  simp only [hb, h, if_true, Bool.false_eq_true, if_false]

theorem doubleQuoted_char (hq : c ≠ '"') (hs : c ≠ '\\') (h : isBlank c = false)
    (hb : isBreak c = false) (hp : 0 < place.column) (s : List Char) :
    doubleQuoted 0 p place (c :: s) =
      (doubleQuoted 0 .none (place.after c) s).map (·.before (p.text ++ [c])) := by
  rw [doubleQuoted.eq_def]
  simp only [hb, h, Bool.false_eq_true, if_false, isDocumentMark_of_column hp, beq_iff_eq, hq, hs]
  rfl

/-- An escape stands for one character of the text. -/
theorem doubleQuoted_escape {e : List Char} (h : Escape c e) (hp : 0 < place.column)
    (s : List Char) : doubleQuoted 0 p place ('\\' :: (e ++ s)) =
      (doubleQuoted 0 .none ((place.after '\\').afterAll e) s).map
        (·.before (p.text ++ [c])) := by
  have he : (e ++ s).head?.any isBreak = false := by
    cases e with
    | nil => exact nomatch h.read []
    | cons d e => simpa using (h.chars d (List.mem_cons_self ..)).2
  rw [doubleQuoted.eq_def]
  simp only [isDocumentMark_of_column hp, he, h.read s]
  rw [← doubleQuoted_skip e s]
  rfl

/-- A double quote closes the scalar wherever it stands. -/
theorem doubleQuoted_close (hp : 0 < place.column) (rest : List Char) :
    doubleQuoted 0 p place ('"' :: rest) = .ok ⟨p.text, rest, place.after '"'⟩ := by
  rw [doubleQuoted.eq_def]
  simp only [isDocumentMark_of_column hp]
  rfl

/-- What double quotes hold is read back, whatever blanks are pending before it. -/
theorem doubleQuoted_escaped (hb : p.isBreaks = false) (hp : 0 < place.column) :
    doubleQuoted 0 p place (s.flatMap escaped ++ '"' :: rest) =
      .ok ⟨p.text ++ s, rest, place.afterAll (s.flatMap escaped ++ ['"'])⟩ := by
  induction s generalizing p place with
  | nil =>
    rw [List.append_nil]
    exact doubleQuoted_close hp rest
  | cons c s ih =>
    have hafter (place : Place) {d : Char} (hd : isBreak d = false) : 0 < (place.after d).column := by
      rw [Place.after_of_not_isBreak hd]
      exact Nat.succ_pos _
    rw [List.flatMap_cons]
    rcases escaped_cases c with ⟨he, hq, hs, hc, hpr⟩ | ⟨e, he, hr⟩
    · rw [he, List.singleton_append, List.cons_append]
      cases hl : isBlank c with
      | true =>
        rw [doubleQuoted_blank hl hc, ih ((p.isBreaks_addBlank c).trans hb) (hafter place hc),
          p.text_addBlank hb, List.append_assoc]
        rfl
      | false =>
        rw [doubleQuoted_char hq hs hl hc hp, ih rfl (hafter place hc)]
        simp [Except.map, Scanned.before, Pending.text]
    · have hcol : 0 < ((place.after '\\').afterAll e).column := by
        rw [Place.afterAll_of_line fun d hd => (hr.chars d hd).2]
        exact Nat.lt_of_lt_of_le (hafter place (d := '\\') rfl) (Nat.le_add_right ..)
      rw [he, List.cons_append, List.cons_append, List.append_assoc, doubleQuoted_escape hr hp,
        ih rfl hcol]
      simp [Except.map, Scanned.before, Pending.text]

end

end Relabel.Yaml
