import Mathlib.Logic.Relation
import Relabel.Proofs.Yaml.Written
import Relabel.Yaml.Value

/-!
# Steps of the scanner on a written file

The scanner meets a written value line by line. Between two lines it has some blocks still to close,
which shows only once the column of the next line is known; so what is said of a place between lines
is said of the blocks that are left when those have been closed that end there.

* `Scan.Reads`: one token is read.
* `Scan.Stands`: the scanner has come to a line.
* `Scan.reads_key`, `Scan.reads_entry`: a key and the hyphen of an entry are read.
* `Scan.reads_scalar`, `Scan.reads_noItems`: a scalar and an empty list are read.
-/

namespace Relabel.Yaml

variable {c : Char} {s r : List Char}

theorem Value.closeLine_eq (s : List Char) : closeLine s = s ++ lineEnd s := by
  unfold closeLine lineEnd
  split
  · rw [List.append_nil]
  · rfl

/-! ## Steps of the scanner -/

namespace Scan

variable {z z' : Scan} {k : Nat}

/-- One token is read, and something of the file with it. -/
def Reads (z z' : Scan) : Prop := z.step = .ok (some z') ∧ z'.rest.length < z.rest.length

theorem run_of_reads {fuel : Nat} (h : Relation.ReflTransGen Reads z z')
    (he : z'.step = .ok none) (hf : z.rest.length < fuel) : z.run fuel = z'.finish := by
  induction h using Relation.ReflTransGen.head_induction_on generalizing fuel with
  | refl =>
    obtain ⟨fuel, rfl⟩ := Nat.exists_eq_succ_of_ne_zero (Nat.ne_of_gt (Nat.zero_lt_of_lt hf))
    rw [run, he]
    rfl
  | head hr _ ih =>
    obtain ⟨fuel, rfl⟩ := Nat.exists_eq_succ_of_ne_zero (Nat.ne_of_gt (Nat.zero_lt_of_lt hf))
    rw [run, hr.1]
    exact ih (Nat.lt_of_lt_of_le hr.2 (Nat.le_of_lt_succ hf))

theorem length_skipGap (inFlow allowed inComment : Bool) (p : Place) (s : List Char) :
    (skipGap inFlow allowed inComment p s).rest.length ≤ s.length := by
  induction s generalizing allowed inComment p with
  | nil => exact Nat.le_refl _
  | cons c s ih =>
    unfold skipGap
    repeat' split
    all_goals first
      | exact Nat.le_succ_of_le (ih ..)
      | exact Nat.le_refl _

theorem toNext_eq (z : Scan) {q : Scanned Bool}
    (h : skipGap z.inFlow z.keyAllowed false z.place z.rest = q) :
    z.toNext = { z with rest := q.rest, place := q.place, keyAllowed := q.value } := by
  subst h
  rfl

theorem length_toNext (z : Scan) : z.toNext.rest.length ≤ z.rest.length :=
  length_skipGap ..

theorem step_of_toNext (h : z.toNext.rest = c :: r) : z.step =
    ((z.toNext.closeBlocks (some z.toNext.place.column)).take c r).map some := by
  unfold step
  dsimp only
  rw [h]
  rfl

/-! ## Blocks -/

theorem closeBlocks_eq {column : Option Nat} {A B : List Nat} (ho : z.outer = [])
    (hA : ∀ i ∈ A, column.all (· < i) = true) (hB : ∀ i ∈ B.head?, column.all (· < i) = false)
    (hz : z.indents = A ++ B) : z.closeBlocks column =
      { z with indents := B, read := List.replicate A.length .blockEnd ++ z.read } := by
  have ht : ((A ++ B).takeWhile fun i => column.all (· < i)) = A := by
    rw [List.takeWhile_append_of_pos hA]
    cases B with
    | nil => simp
    | cons i B => rw [List.takeWhile_cons_of_neg (by simp [hB i rfl]), List.append_nil]
  unfold closeBlocks
  rw [if_neg (by simp [inFlow, ho]), hz, ht]
  simp

/-- The blocks that a column closes, and the others. -/
theorem exists_closeBlocks (column : Option Nat) (I : List Nat) :
    ∃ A B, I = A ++ B ∧ (∀ i ∈ A, column.all (· < i) = true) ∧
      ∀ i ∈ B.head?, column.all (· < i) = false := by
  induction I with
  | nil => exact ⟨[], [], rfl, nofun, nofun⟩
  | cons i I ih =>
    cases h : column.all (· < i) with
    | false => exact ⟨[], i :: I, rfl, nofun, by simpa using h⟩
    | true =>
      obtain ⟨A, B, rfl, hA, hB⟩ := ih
      exact ⟨i :: A, B, rfl, List.forall_mem_cons.mpr ⟨h, hA⟩, hB⟩

/-- To close some blocks and then more of them is to close all of them. -/
theorem closeBlocks_closeBlocks {column column' : Option Nat} (ho : z.outer = [])
    (h : ∀ i, column.all (· < i) = true → column'.all (· < i) = true) :
    (z.closeBlocks column).closeBlocks column' = z.closeBlocks column' := by
  obtain ⟨A, B, hz, hA, hB⟩ := exists_closeBlocks column z.indents
  obtain ⟨A', B', rfl, hA', hB'⟩ := exists_closeBlocks column' B
  have hAll : ∀ i ∈ A ++ A', column'.all (· < i) = true :=
    List.forall_mem_append.mpr ⟨fun i hi => h i (hA i hi), hA'⟩
  rw [closeBlocks_eq ho hAll hB' (by rw [hz, List.append_assoc]), closeBlocks_eq ho hA hB hz]
  refine (closeBlocks_eq (z := { z with indents := A' ++ B', read := _ }) ho hA' hB' rfl).trans ?_
  rw [List.length_append, Nat.add_comm, ← List.replicate_append_replicate, List.append_assoc]

theorem closeBlocks_of_head {column : Option Nat} (ho : z.outer = [])
    (h : ∀ i ∈ z.indents.head?, column.all (· < i) = false) : z.closeBlocks column = z :=
  closeBlocks_eq (A := []) ho nofun h rfl

/-! ## Places between tokens -/

/-- The scanner has come to a line. When the blocks have been closed that reach beyond the column
`k`, the blocks in the columns `I` are open and the tokens `read` have been read, the last first. -/
structure Stands (z : Scan) (k : Nat) (I : List Nat) (read : List Token) (next : Next) : Prop where
  outer : z.outer = []
  candidate : z.candidate.any (·.required) = false
  rest : z.toNext.rest = next.body
  keyAllowed : z.toNext.keyAllowed = true
  column : next.body ≠ [] → z.toNext.place.column = next.indent
  indents_eq : (z.closeBlocks (some k)).indents = I
  read_eq : (z.closeBlocks (some k)).read = read

/-- The scanner behind the colon of a key in the column `k`. -/
def atValue (p : Place) (k : Nat) (I : List Nat) (read : List Token) (rest : List Char) : Scan :=
  ⟨rest, p, k :: I, none, [], false, read⟩

/-- How the block of a mapping in the column `k` is opened by its first key: from the columns before
to those around the block, with the token that is read before the key. -/
inductive Opening (k : Nat) : List Nat → List Nat → List Token → Prop
  | stay (I : List Nat) : Opening k (k :: I) I []
  | start {I : List Nat} : (∀ i ∈ I.head?, i < k) → Opening k I I [.blockMappingStart]

variable {I I₀ : List Nat} {read ts : List Token} {next : Next} {rest : List Char}

namespace Stands

/-- A block that ends before the next line is closed. -/
theorem close {j : Nat} (h : Stands z k (k :: j :: I) read next) (hj : j < k) :
    Stands z j (j :: I) (.blockEnd :: read) next := by
  have hc : (z.closeBlocks (some k)).closeBlocks (some j) = z.closeBlocks (some j) :=
    closeBlocks_closeBlocks h.outer fun i hi => by
      simp only [Option.all_some, decide_eq_true_eq] at hi ⊢
      omega
  have ho : (z.closeBlocks (some k)).outer = [] := by
    unfold closeBlocks
    split <;> exact h.outer
  have hz : (z.closeBlocks (some k)).closeBlocks (some j) = _ :=
    closeBlocks_eq (A := [k]) (B := j :: I) ho (by simpa using hj) (by simp) h.indents_eq
  rw [hc] at hz
  refine ⟨h.outer, h.candidate, h.rest, h.keyAllowed, h.column, by rw [hz], ?_⟩
  rw [hz, h.read_eq]
  rfl

/-- A scanner that has no block to close. -/
theorem of_indents (ho : z.outer = []) (hc : z.candidate.any (·.required) = false)
    (hr : z.toNext.rest = next.body) (hk : z.toNext.keyAllowed = true)
    (hp : next.body ≠ [] → z.toNext.place.column = next.indent) (hI : ∀ i ∈ z.indents.head?, i ≤ k) :
    Stands z k z.indents z.read next := by
  have hz : z.closeBlocks (some k) = z :=
    closeBlocks_of_head ho fun i hi => by simpa using hI i hi
  exact ⟨ho, hc, hr, hk, hp, by rw [hz], by rw [hz]⟩

end Stands

/-! ## Keys -/

theorem closeBlocks_toNext (column : Option Nat) (z : Scan) : z.toNext.closeBlocks column =
    { z.toNext with
      indents := (z.closeBlocks column).indents, read := (z.closeBlocks column).read } := by
  unfold closeBlocks toNext moveTo
  cases h : z.inFlow <;> simp_all [inFlow]

theorem Stands.length_body_le (h : Stands z k I read next) : next.body.length ≤ z.rest.length :=
  h.rest ▸ length_toNext z

/-- The scanner before the first character of a line, with the blocks closed that end there. -/
theorem Stands.closed (h : Stands z k I read ⟨k, c :: r⟩) : ∃ p candidate,
    p.column = k ∧ candidate.any (·.required) = false ∧ z.step =
      (take ⟨c :: r, p, I, candidate, [], true, read⟩ c r).map some := by
  refine ⟨z.toNext.place, z.candidate, h.column (by simp), h.candidate, ?_⟩
  have hz : z.toNext.closeBlocks (some k) =
      ⟨c :: r, z.toNext.place, I, z.candidate, [], true, read⟩ := by
    rw [closeBlocks_toNext, h.indents_eq, h.read_eq]
    have hr := h.rest
    have hk := h.keyAllowed
    have ho := h.outer
    unfold toNext moveTo at *
    simp_all
  rw [step_of_toNext h.rest, h.column (by simp), hz]

theorem Opening.head_le {I₀ I : List Nat} {ts : List Token} (h : Opening k I₀ I ts) :
    ∀ i ∈ I₀.head?, i ≤ k := by
  cases h with
  | stay => simp
  | start h => exact fun i hi => Nat.le_of_lt (h i hi)

/-- The token that opens the block goes before the key. -/
theorem Opening.openBlock_eq {I₀ I : List Nat} {ts read : List Token} (h : Opening k I₀ I ts)
    (hz : z.indents = I₀) (ho : z.outer = []) {t t' : Token} (hr : z.read = t :: t' :: read) :
    z.openBlock .blockMappingStart k 2 =
      { z with indents := k :: I, read := t :: t' :: (ts ++ read) } := by
  unfold openBlock
  cases h with
  | stay =>
    rw [if_pos (by simp [hz])]
    obtain ⟨rest, p, indents, candidate, outer, keyAllowed, r⟩ := z
    subst hz hr
    rfl
  | start h =>
    have hI : I₀.head?.any (k ≤ ·) = false := by
      cases hh : I₀.head? with
      | none => rfl
      | some i => simpa using h i hh
    rw [if_neg (by simp [hz, hI, inFlow, ho]), hz, hr]
    rfl

theorem markCandidate_eq (ha : z.keyAllowed = true) (hc : z.candidate.any (·.required) = false) :
    ∃ required, z.markCandidate =
      .ok { z with candidate := some ⟨required, z.read.length, z.place⟩ } := by
  refine ⟨!z.inFlow && z.indents.head? == some z.place.column, ?_⟩
  rw [markCandidate, if_pos ha, dropCandidate, hc]
  rfl

theorem takePlain_eq {z₁ : Scan} {q : Scanned (List Char × Bool)} (hz : z.markCandidate = .ok z₁)
    (hq : plain z₁.inFlow z₁.innerIndent .none z₁.place z₁.rest = .ok q) : z.takePlain =
      .ok { z₁ with
        rest := q.rest, place := q.place, keyAllowed := q.value.2,
        read := .scalar q.value.1 .plain :: z₁.read } := by
  rw [takePlain, hz]
  change (plain z₁.inFlow z₁.innerIndent .none z₁.place z₁.rest).bind _ = _
  rw [hq]
  rfl

theorem takeValue_eq {q : Candidate} {t : Token} (hs : z.keyStart = .ok (some q))
    (hr : z.read = t :: read) (hn : q.number = read.length) : z.takeValue = .ok (takeMark .value 1
      { openBlock .blockMappingStart q.place.column 2 { z with read := t :: .key :: read } with
        candidate := none, keyAllowed := false }) := by
  have hb : z.read.length - q.number = 1 := by simp [hr, hn]
  unfold takeValue
  simp only [hs, bind, Except.bind, hb]
  rw [hr]
  rfl

/-- The scanner before the colon of a key that began at a place. -/
def atColon (p : Place) (required : Bool) (I : List Nat) (read : List Token) (key r : List Char) :
    Scan :=
  ⟨':' :: r, p.afterAll key, I, some ⟨required, read.length, p⟩, [], false,
    .scalar key .plain :: read⟩

theorem reads_atColon {key : List Char} (h : Stands z k I₀ read ⟨k, key ++ ':' :: r⟩)
    (hne : key ≠ []) (hk : ∀ c ∈ key, isKeyChar c = true) (hr : endsWord r = true) :
    ∃ p required, p.column = k ∧ Reads z (atColon p required I₀ read key r) := by
  obtain ⟨c, s, rfl⟩ := List.exists_cons_of_ne_nil hne
  have hc := hk c (List.mem_cons_self ..)
  have hw := isWordChar_of_isKeyChar hc
  have hlen := h.length_body_le
  rw [List.cons_append] at h
  obtain ⟨p, candidate, hp, hcand, hstep⟩ := h.closed
  obtain ⟨required, hmark⟩ := markCandidate_eq
    (z := ⟨c :: s ++ ':' :: r, p, I₀, candidate, [], true, read⟩) rfl hcand
  rw [take_plain rfl (hasOpeningMark_of_isKeyChar hc s) (isBlank_of_isWordChar hw)
    (isBreak_of_isWordChar hw) (':' :: r) (by rw [isDocumentMark_of_isKeyChar hc, Bool.and_false])]
    at hstep
  refine ⟨p, required, hp, hstep.trans (congrArg _ (takePlain_eq hmark (plain_key hk hr))),
    Nat.lt_of_lt_of_le ?_ hlen⟩
  simp only [atColon, List.length_append, List.length_cons]
  omega

/-- The colon behind a word makes a key of it. -/
theorem reads_colon {key : List Char} {p : Place} {required : Bool} (hne : key ≠ [])
    (hk : ∀ c ∈ key, isBreak c = false) (hl : key.length ≤ maxKey) (hr : endsWord r = true)
    (hI : Opening p.column I₀ I ts) : p.column < ((p.afterAll key).after ':').column ∧
      Reads (atColon p required I₀ read key r) (atValue ((p.afterAll key).after ':') p.column I
        (.value :: .scalar key .plain :: .key :: (ts ++ read)) r) := by
  have hcol : p.column < (p.afterAll key).column := by
    rw [Place.afterAll_of_line hk]
    exact Nat.lt_add_of_pos_right (List.length_pos_iff.mpr hne)
  refine ⟨Nat.lt_succ_of_lt hcol, ?_, Nat.lt_succ_self _⟩
  have hclose : (atColon p required I₀ read key r).closeBlocks (some (p.afterAll key).column) =
      atColon p required I₀ read key r := closeBlocks_of_head rfl fun i hi => by
    have := hI.head_le i hi
    simp
    omega
  have hlen : ¬ p.index + maxKey < p.index + key.length := by omega
  have hstart : (atColon p required I₀ read key r).keyStart = .ok (some ⟨required, read.length, p⟩) := by
    simp [keyStart, atColon, Place.afterAll_of_line hk, hlen]
  rw [step_of_toNext (c := ':') (r := r) rfl]
  change Except.map some (((atColon p required I₀ read key r).closeBlocks
    (some (p.afterAll key).column)).take ':' r) = _
  have htake : (atColon p required I₀ read key r).take ':' r =
      (atColon p required I₀ read key r).takeValue := by
    have : ((p.afterAll key).column == 0) = false := beq_false_of_ne (by omega)
    simp [take, atColon, this, hr]
  rw [hclose, htake, takeValue_eq hstart rfl rfl, hI.openBlock_eq rfl rfl rfl]
  rfl

/-- A key is scanned, with the block that it opens. -/
theorem reads_key {key : List Char} (h : Stands z k I₀ read ⟨k, key ++ ':' :: r⟩)
    (hne : key ≠ []) (hl : key.length ≤ maxKey) (hk : ∀ c ∈ key, isKeyChar c = true)
    (hr : endsWord r = true) (hI : Opening k I₀ I ts) : ∃ p, k < p.column ∧
      Relation.ReflTransGen Reads z
        (atValue p k I (.value :: .scalar key .plain :: .key :: (ts ++ read)) r) := by
  obtain ⟨p, required, rfl, hfirst⟩ := reads_atColon h hne hk hr
  have hline : ∀ c ∈ key, isBreak c = false := fun c hc =>
    isBreak_of_isWordChar (isWordChar_of_isKeyChar (hk c hc))
  obtain ⟨hcol, hsecond⟩ := reads_colon hne hline hl hr hI
  exact ⟨_, hcol, .tail (.single hfirst) hsecond⟩

/-! ## Scalars -/

variable {p : Place} {t : List Char}

/-- A scalar has been read up to its line's end. -/
theorem stands_before_line {j : Nat} (hn : next.Regular) (p : Place) (hj : k ≤ j) (I : List Nat)
    (read : List Token) :
    Stands (atValue p k I read ('\n' :: next.text)) j (k :: I) read next := by
  have hz : (atValue p k I read ('\n' :: next.text)).toNext =
      ⟨next.body, p.afterAll ('\n' :: spaces next.indent), k :: I, none, [], true, read⟩ :=
    toNext_eq (atValue p k I read _) (skipGap_line hn p)
  refine Stands.of_indents rfl rfl ?_ ?_ ?_ (by simpa [atValue] using hj)
  · rw [hz]
  · rw [hz]
  · rw [hz]
    exact fun _ => (Place.column_afterAll_spaces _ _).trans (Nat.zero_add _)

/-- A scalar has been read with its line's end. -/
theorem stands_behind_line (hn : next.Regular) (hp : p.column = next.indent) (k : Nat)
    (I : List Nat) (read : List Token) :
    Stands ⟨next.body, p, k :: I, none, [], true, read⟩ k (k :: I) read next := by
  have hz : toNext ⟨next.body, p, k :: I, none, [], true, read⟩ =
      ⟨next.body, p, k :: I, none, [], true, read⟩ := by
    cases hn with
    | ended => rfl
    | line hc => exact toNext_eq ⟨_, p, _, _, [], true, _⟩ (skipGap_of_isWordChar hc _ p)
  refine Stands.of_indents rfl rfl ?_ ?_ ?_ (by simp)
  · rw [hz]
  · rw [hz]
  · rw [hz]
    exact fun _ => hp

/-- A token behind the space that follows a key. -/
theorem step_atValue (hp : k < p.column) (hl : isBlank c = false) (hb : isBreak c = false)
    (hm : c ≠ '#') (ho : c ≠ byteOrderMark) (I : List Nat) (read : List Token) (t : List Char) :
    (atValue p k I read (' ' :: c :: t)).step =
      ((atValue (p.after ' ') k I read (c :: t)).take c t).map some := by
  have hz : (atValue p k I read (' ' :: c :: t)).toNext = atValue (p.after ' ') k I read (c :: t) :=
    (toNext_eq (atValue p k I read (' ' :: c :: t)) (skipGap_stop hb hl hm ho t (p.after ' '))).trans rfl
  have hclose : (atValue (p.after ' ') k I read (c :: t)).closeBlocks (some (p.after ' ').column) =
      atValue (p.after ' ') k I read (c :: t) :=
    closeBlocks_of_head rfl fun i hi => by
      obtain rfl : k = i := by simpa [atValue] using hi
      have : (p.after ' ').column = p.column + 1 := rfl
      simp
      omega
  rw [step_of_toNext (c := c) (r := t) (by rw [hz]; rfl), hz]
  exact congrArg (fun z : Scan => (z.take c t).map some) hclose

theorem takeQuoted_single (h : Quotable s) (n : Nat) : ∃ q,
    takeQuoted .single (atValue p k I read
        ('\'' :: (quotedLines (n + 1) false s ++ '\'' :: '\n' :: t))) =
      .ok (atValue q k I (.scalar s .single :: read) ('\n' :: t)) := by
  have hq : singleQuoted .none (p.after '\'') (quotedLines (n + 1) false s ++ '\'' :: '\n' :: t) =
      .ok ⟨s, '\n' :: t, (p.after '\'').afterAll (quotedLines (n + 1) false s ++ ['\''])⟩ :=
    singleQuoted_quotedLines (p := .none) h (Nat.succ_pos n) trivial fun _ => Nat.succ_pos _
  refine ⟨(p.after '\'').afterAll (quotedLines (n + 1) false s ++ ['\'']), ?_⟩
  change (singleQuoted .none (p.after '\'')
    (quotedLines (n + 1) false s ++ '\'' :: '\n' :: t)).bind _ = _
  rw [hq]
  rfl

theorem takeQuoted_double (s t : List Char) : ∃ q,
    takeQuoted .double (atValue p k I read ('"' :: (s.flatMap escaped ++ '"' :: t))) =
      .ok (atValue q k I (.scalar s .double :: read) t) := by
  have hq : doubleQuoted 0 .none (p.after '"') (s.flatMap escaped ++ '"' :: t) =
      .ok ⟨s, t, (p.after '"').afterAll (s.flatMap escaped ++ ['"'])⟩ :=
    doubleQuoted_escaped (p := .none) rfl (Nat.succ_pos _)
  refine ⟨(p.after '"').afterAll (s.flatMap escaped ++ ['"']), ?_⟩
  change (doubleQuoted 0 .none (p.after '"') (s.flatMap escaped ++ '"' :: t)).bind _ = _
  rw [hq]
  rfl

theorem takeBlockScalar_literal {q : Scanned (List Char)}
    (hq : blockScalar false (headerOf s) k (k + 1) t
      (((p.after '|').afterAll (blockSigns s)).after '\n') = .ok q) :
    takeBlockScalar .literal (atValue p k I read ('|' :: (blockSigns s ++ '\n' :: t))) =
      .ok ⟨q.rest, q.place, k :: I, none, [], true, .scalar q.value .literal :: read⟩ := by
  have hdrop : (blockSigns s ++ '\n' :: t).drop
      ((blockSigns s ++ '\n' :: t).length - ('\n' :: t).length) = '\n' :: t := by simp
  have htake : (blockSigns s ++ '\n' :: t).take
      ((blockSigns s ++ '\n' :: t).length - ('\n' :: t).length) = blockSigns s := by simp
  change (blockHeader (blockSigns s ++ '\n' :: t)).bind _ = _
  rw [blockHeader_blockSigns]
  change (closeLine .badHeader ((blockSigns s ++ '\n' :: t).drop
      ((blockSigns s ++ '\n' :: t).length - ('\n' :: t).length))
    ((p.after '|').afterAll ((blockSigns s ++ '\n' :: t).take
      ((blockSigns s ++ '\n' :: t).length - ('\n' :: t).length)))).bind _ = _
  rw [hdrop, htake]
  change (blockScalar false (headerOf s) k (max (k + 1) 1) t
    (((p.after '|').afterAll (blockSigns s)).after '\n')).bind _ = _
  rw [Nat.max_eq_left (Nat.le_add_left 1 k), hq]
  rfl

theorem reads_plain (hp : k < p.column) (hn : next.Regular) (hi : next.indent ≤ k)
    (hs : PlainInner (c :: s)) (hl : isBlank c = false) (hm : hasOpeningMark (c :: s) = false)
    (I : List Nat) (read : List Token) :
    ∃ z', Reads (atValue p k I read (' ' :: c :: (s ++ '\n' :: next.text))) z' ∧
      Stands z' k (k :: I) (.scalar (c :: s) .plain :: read) next := by
  have hb := hs.head.2
  have hcomment : c ≠ '#' := by
    rintro rfl
    exact absurd hm (by simp [hasOpeningMark])
  have hmark : c ≠ byteOrderMark := by
    rintro rfl
    exact absurd hs.head.1 (by decide)
  have hline : plain false (k + 1) .none (p.after ' ') (c :: s ++ '\n' :: next.text) =
      .ok ⟨(c :: s, true), next.body,
        (p.after ' ').afterAll (c :: s ++ '\n' :: spaces next.indent)⟩ :=
    plain_line (p := .none) hs rfl (by simp) (fun h => absurd rfl h) (Nat.succ_pos k)
      (Nat.le_succ_of_le hp) hn (Nat.lt_succ_of_le hi)
  have hplain := takePlain_eq
    (z := atValue (p.after ' ') k I read (c :: s ++ '\n' :: next.text)) rfl hline
  have hstep := step_atValue hp hl hb hcomment hmark I read (s ++ '\n' :: next.text)
  rw [take_plain (z := atValue (p.after ' ') k I read _) rfl hm hl hb _
    (isDocumentMark_of_column (Nat.succ_pos p.column) _)] at hstep
  refine ⟨_, ⟨hstep.trans (congrArg _ hplain), ?_⟩, ?_⟩
  · simp [atValue, Next.text]
    omega
  · exact stands_behind_line hn (Place.column_afterAll_line _ (c :: s) _) k I _

theorem reads_single (hp : k < p.column) (hn : next.Regular) (h : Quotable s) (n : Nat)
    (I : List Nat) (read : List Token) :
    ∃ z', Reads (atValue p k I read (' ' :: '\'' ::
        (quotedLines (n + 1) false s ++ '\'' :: '\n' :: next.text))) z' ∧
      Stands z' k (k :: I) (.scalar s .single :: read) next := by
  obtain ⟨q, hq⟩ := takeQuoted_single h n
  have hstep := step_atValue (c := '\'') hp rfl rfl (by decide) (by decide) I read
    (quotedLines (n + 1) false s ++ '\'' :: '\n' :: next.text)
  refine ⟨_, ⟨hstep.trans (congrArg _ hq), ?_⟩, stands_before_line hn q (Nat.le_refl k) I _⟩
  simp [atValue]
  omega

theorem reads_double (hp : k < p.column) (hn : next.Regular) (s : List Char) (I : List Nat)
    (read : List Token) :
    ∃ z', Reads (atValue p k I read (' ' :: '"' ::
        (s.flatMap escaped ++ '"' :: '\n' :: next.text))) z' ∧
      Stands z' k (k :: I) (.scalar s .double :: read) next := by
  obtain ⟨q, hq⟩ := takeQuoted_double s ('\n' :: next.text)
  have hstep := step_atValue (c := '"') hp rfl rfl (by decide) (by decide) I read
    (s.flatMap escaped ++ '"' :: '\n' :: next.text)
  refine ⟨_, ⟨hstep.trans (congrArg _ hq), ?_⟩, stands_before_line hn q (Nat.le_refl k) I _⟩
  simp [atValue]
  omega

theorem reads_literal (hp : k < p.column) (hn : next.Regular) (hi : next.indent ≤ k) (hne : s ≠ [])
    (hs : Shown s) (I : List Nat) (read : List Token) :
    ∃ z', Reads (atValue p k I read (' ' :: '|' :: (blockSigns s ++ '\n' ::
        (blockText (k + 2) true s ++ (lineEnd s ++ next.text))))) z' ∧
      Stands z' k (k :: I) (.scalar s .literal :: read) next := by
  have hcol : (Place.after (((p.after ' ').after '|').afterAll (blockSigns s)) '\n').column = 0 := rfl
  have hblock := blockScalar_blockText hne hs hn (Nat.lt_add_right 1 (Nat.lt_succ_of_le hi))
    (Nat.le_succ (k + 1)) hcol
  have hstep := step_atValue (c := '|') hp rfl rfl (by decide) (by decide) I read
    (blockSigns s ++ '\n' :: (blockText (k + 2) true s ++ (lineEnd s ++ next.text)))
  refine ⟨_, ⟨hstep.trans (congrArg _ (takeBlockScalar_literal hblock)), ?_⟩, ?_⟩
  · simp [atValue, Next.text]
    omega
  · refine stands_behind_line hn ?_ k I _
    rw [← lineEnd_blockText (k + 2) true s]
    exact Place.column_afterAll_lineEnd _ _ _

/-- A scalar behind a key is read, with or up to its line's end. -/
theorem reads_scalar (hp : k < p.column) (hn : next.Regular) (hi : next.indent ≤ k)
    (s : List Char) (I : List Nat) (read : List Token) : ∃ z',
      Reads (atValue p k I read (Value.closeLine (' ' :: written (k + 2) s) ++ next.text)) z' ∧
        Stands z' k (k :: I) (.scalar s (writtenStyle s) :: read) next := by
  rw [Value.closeLine_eq]
  unfold written
  cases hs : writtenStyle s with
  | plain =>
    have ht := plainText_of_writtenStyle hs
    obtain ⟨c, t, rfl⟩ := List.exists_cons_of_ne_nil ht.ne_nil
    have hend : lineEnd (' ' :: c :: t) = ['\n'] :=
      lineEnd_of_line (List.forall_mem_cons.mpr ⟨rfl, fun d hd => (ht.inner.chars d hd).2⟩)
    simpa only [hend, List.append_assoc, List.cons_append, List.nil_append] using
      reads_plain hp hn hi ht.inner (ht.first c rfl) ht.mark I read
  | single =>
    have hend : lineEnd (' ' :: '\'' :: (quotedLines (k + 2) false s ++ ['\''])) = ['\n'] :=
      lineEnd_append (' ' :: '\'' :: quotedLines (k + 2) false s) (List.cons_ne_nil _ _)
    simpa only [hend, List.append_assoc, List.cons_append, List.nil_append] using
      reads_single hp hn (quotable_of_writtenStyle hs) (k + 1) I read
  | double =>
    have hend : lineEnd (' ' :: '"' :: (s.flatMap escaped ++ ['"'])) = ['\n'] :=
      lineEnd_append (' ' :: '"' :: s.flatMap escaped) (List.cons_ne_nil _ _)
    simpa only [hend, List.append_assoc, List.cons_append, List.nil_append] using
      reads_double hp hn s I read
  | literal =>
    obtain ⟨hne, hsh⟩ := linesText_of_writtenStyle hs
    have hend : lineEnd (' ' :: '|' :: (blockSigns s ++ '\n' :: blockText (k + 2) true s)) =
        lineEnd s := by
      rw [List.append_cons, ← List.cons_append, ← List.cons_append,
        lineEnd_append _ (blockText_ne_nil _ _ hne), lineEnd_blockText]
    simpa only [hend, List.append_assoc, List.cons_append, List.nil_append] using
      reads_literal hp hn hi hne hsh I read
  | folded => exact absurd hs (writtenStyle_ne_folded s)

/-! ## Lists -/

/-- The hyphen of an entry is read. -/
theorem reads_entry (h : Stands z k (k :: I) read ⟨k, '-' :: ' ' :: r⟩)
    (hr : Next.Regular ⟨k + 2, r⟩) : ∃ z', Reads z z' ∧
      Stands z' (k + 2) (k :: I) (.blockEntry :: read) ⟨k + 2, r⟩ := by
  obtain ⟨p, candidate, hp, hcand, hstep⟩ := h.closed
  let z' : Scan := ⟨' ' :: r, p.after '-', k :: I, none, [], true, .blockEntry :: read⟩
  have htake : take ⟨'-' :: ' ' :: r, p, k :: I, candidate, [], true, read⟩ '-' (' ' :: r) =
      .ok z' := by
    have hopen : openBlock .blockSequenceStart k 0
        ⟨'-' :: ' ' :: r, p, k :: I, candidate, [], true, read⟩ =
          ⟨'-' :: ' ' :: r, p, k :: I, candidate, [], true, read⟩ := by
      simp [openBlock]
    have hmark : isDocumentMark ('-' :: ' ' :: r) = false := rfl
    simp [take, hmark, endsWord, isBlank, takeBlockEntry, hp, hopen, dropCandidate, hcand]
    rfl
  have hz : z'.toNext = ⟨r, (p.after '-').after ' ', k :: I, none, [], true, .blockEntry :: read⟩ := by
    cases hr with
    | line hc => exact (toNext_eq z' (skipGap_of_isWordChar hc _ ((p.after '-').after ' '))).trans rfl
  refine ⟨z', ⟨hstep.trans (congrArg _ htake), Nat.lt_of_lt_of_le ?_ h.length_body_le⟩, ?_⟩
  · simp [z']
  · refine Stands.of_indents rfl rfl ?_ ?_ ?_ (by simp [z'])
    · rw [hz]
    · rw [hz]
    · rw [hz, Place.after_of_not_isBreak rfl, Place.after_of_not_isBreak rfl, hp]
      exact fun _ => rfl

/-- A list without items is read. -/
theorem reads_noItems (hp : k < p.column) (hn : next.Regular) : ∃ z',
    Relation.ReflTransGen Reads
        (atValue p k I read (' ' :: '[' :: ']' :: '\n' :: next.text)) z' ∧
      Stands z' k (k :: I) (.flowSequenceEnd :: .flowSequenceStart :: read) next := by
  let z₁ : Scan := ⟨']' :: '\n' :: next.text, (p.after ' ').after '[', k :: I, none, [none], true,
    .flowSequenceStart :: read⟩
  let z₂ := atValue (((p.after ' ').after '[').after ']') k I
    (.flowSequenceEnd :: .flowSequenceStart :: read) ('\n' :: next.text)
  have hopen : Reads (atValue p k I read (' ' :: '[' :: ']' :: '\n' :: next.text)) z₁ := by
    refine ⟨(step_atValue hp rfl rfl (by decide) (by decide) I read _).trans rfl, ?_⟩
    simp [atValue, z₁]
  have hclose : Reads z₁ z₂ := by
    refine ⟨(step_of_toNext (c := ']') (r := '\n' :: next.text) rfl).trans rfl, ?_⟩
    simp [atValue, z₁, z₂]
  exact ⟨z₂, .tail (.single hopen) hclose, stands_before_line hn _ (Nat.le_refl k) I _⟩

end Scan
end Relabel.Yaml
