import Relabel.Proofs.Yaml.Scan

/-!
# The tokens of a written value

* `Value.isRegular`: the values that are read back.
* `Value.tokens`: the tokens of a value.
* `Scan.reads_value`, `Scan.reads_fields`, `Scan.reads_items`: a value is scanned, line by line.
* `tokens_render`: the tokens of a file that holds a record.
-/

namespace Relabel.Yaml

/-! ## Values that are read back -/

namespace Value

/-- A word that may stand as a key. -/
def isKey (key : String) : Bool :=
  !key.toList.isEmpty && key.toList.length ≤ Scan.maxKey && key.toList.all isKeyChar

def isRecord : Value → Bool
  | .record _ => true
  | _ => false

mutual

/-- The value may stand behind a key: records have fields, and the items of lists are records. -/
def isRegular : Value → Bool
  | .text _ | .flag _ => true
  | .list items => regularItems items
  | .record fields => !fields.isEmpty && regularFields fields

/-- The same for the items of a list. -/
def regularItems : List Value → Bool
  | [] => true
  | v :: vs => v.isRecord && v.isRegular && regularItems vs

/-- The same for the fields of a record. -/
def regularFields : List (String × Value) → Bool
  | [] => true
  | (key, v) :: fields => isKey key && v.isRegular && regularFields fields

end

theorem regularItems_map {α : Type} {toValue : α → Value}
    (h : ∀ a, ((toValue a).isRecord && (toValue a).isRegular) = true) (as : List α) :
    regularItems (as.map toValue) = true := by
  induction as with
  | nil => rfl
  | cons a as ih => rw [List.map_cons, regularItems, h, ih, Bool.and_true]

/-- A key is not empty, is not too long and needs no quotes. -/
theorem key_of_isKey {key : String} (h : isKey key = true) : key.toList ≠ [] ∧
    key.toList.length ≤ Scan.maxKey ∧ ∀ c ∈ key.toList, isKeyChar c = true := by
  simpa [isKey, and_assoc] using h

/-- The word for a truth value. -/
def flagText (b : Bool) : List Char := (if b then "true" else "false").toList

mutual

/-- The tokens of a value that stands behind a key. -/
def tokens : Value → List Token
  | .text s => [.scalar s.toList (writtenStyle s.toList)]
  | .flag b => [.scalar (flagText b) .plain]
  | .list items =>
    match items with
    | [] => [.flowSequenceStart, .flowSequenceEnd]
    | _ => itemTokens items
  | .record fields => .blockMappingStart :: fieldTokens fields ++ [.blockEnd]

/-- The tokens of the items of a list. -/
def itemTokens : List Value → List Token
  | [] => []
  | v :: vs => .blockEntry :: v.tokens ++ itemTokens vs

/-- The tokens of the fields of a record. -/
def fieldTokens : List (String × Value) → List Token
  | [] => []
  | (key, v) :: fields =>
    .key :: .scalar key.toList .plain :: .value :: v.tokens ++ fieldTokens fields

end

end Value

/-! ## What comes next -/

namespace Next

/-- The fields of a record in the column `k`, before something else. -/
def fields (k : Nat) (next : Next) : List (String × Value) → Next
  | [] => next
  | (key, v) :: rest => ⟨k, key.toList ++ ':' :: (v.afterKey k ++ (fields k next rest).text)⟩

/-- The items of a list in the column `k`, before something else. -/
def items (k : Nat) (next : Next) : List Value → Next
  | [] => next
  | v :: rest =>
    ⟨k, '-' :: ' ' :: ((v.lines (k + 2)).drop (k + 2) ++ (items k next rest).text)⟩

theorem text_fields (k : Nat) (next : Next) (fields : List (String × Value)) :
    (next.fields k fields).text = Value.fieldLines k fields ++ next.text := by
  induction fields with
  | nil => rfl
  | cons field rest ih =>
    rw [Next.fields, Next.text, ih, Value.fieldLines]
    simp only [List.append_assoc, List.cons_append]

theorem text_items (k : Nat) (next : Next) (items : List Value) :
    (next.items k items).text = Value.itemLines k items ++ next.text := by
  induction items with
  | nil => rfl
  | cons v rest ih =>
    rw [Next.items, Next.text, ih, Value.itemLines]
    simp only [List.append_assoc, List.cons_append]

variable {k : Nat} {next : Next}

theorem regular_field {key : String} (h : Value.isKey key = true) (r : List Char) :
    Next.Regular ⟨k, key.toList ++ ':' :: r⟩ := by
  obtain ⟨hne, -, hk⟩ := Value.key_of_isKey h
  obtain ⟨c, s, hs⟩ := List.exists_cons_of_ne_nil hne
  rw [hs] at hk ⊢
  exact .line (isWordChar_of_isKeyChar (hk c (List.mem_cons_self ..)))

/-- What comes next is regular with fields before it. -/
theorem regular_fields {fields : List (String × Value)} (hn : next.Regular)
    (h : Value.regularFields fields = true) : (next.fields k fields).Regular := by
  cases fields with
  | nil => exact hn
  | cons field rest =>
    simp only [Value.regularFields, Bool.and_eq_true] at h
    exact regular_field h.1.1 _

theorem regular_items (hn : next.Regular) (items : List Value) : (next.items k items).Regular := by
  cases items with
  | nil => exact hn
  | cons v rest => exact .line rfl

theorem indent_fields_le (hi : next.indent ≤ k) (fields : List (String × Value)) :
    (next.fields k fields).indent ≤ k := by
  cases fields with
  | nil => exact hi
  | cons => exact Nat.le_refl k

theorem indent_items_le (hi : next.indent ≤ k) (items : List Value) :
    (next.items k items).indent ≤ k := by
  cases items with
  | nil => exact hi
  | cons => exact Nat.le_refl k

end Next

namespace Value

variable {fields : List (String × Value)}

theorem lines_record (hf : fields ≠ []) (k : Nat) :
    (Value.record fields).lines k = fieldLines k fields := by
  rw [lines]
  exact hf

/-- A record begins on a new line, and is indented. -/
theorem afterKey_record (hf : fields ≠ []) (k : Nat) :
    (Value.record fields).afterKey k = '\n' :: fieldLines (k + 2) fields := by
  rw [afterKey]
  exact hf

theorem endsWord_afterKey (k : Nat) (v : Value) (t : List Char) :
    endsWord (v.afterKey k ++ t) = true := by
  cases v with
  | text s =>
    rw [afterKey, closeLine_eq]
    rfl
  | flag b => cases b <;> rfl
  | list items => cases items <;> rfl
  | record fields => cases fields <;> rfl

end Value

/-! ## Values -/

namespace Scan

variable {z : Scan} {k : Nat} {I I₀ : List Nat} {read ts : List Token} {next rest : Next} {p : Place}

/-- A value behind a key is read. -/
def ReadsValue (k : Nat) (I : List Nat) (v : Value) (next : Next) : Prop :=
  ∀ (p : Place) (read : List Token), k < p.column → ∃ z',
    Relation.ReflTransGen Reads (atValue p k I read (v.afterKey k ++ next.text)) z' ∧
      Stands z' k (k :: I) (v.tokens.reverse ++ read) next

theorem reads_field {key : String} {v : Value} (hkey : Value.isKey key = true)
    (hv : ReadsValue k I v rest) (hI : Opening k I₀ I ts)
    (h : Stands z k I₀ read ⟨k, key.toList ++ ':' :: (v.afterKey k ++ rest.text)⟩) : ∃ z',
      Relation.ReflTransGen Reads z z' ∧ Stands z' k (k :: I)
        (v.tokens.reverse ++ .value :: .scalar key.toList .plain :: .key :: (ts ++ read)) rest := by
  obtain ⟨hne, hl, hk⟩ := Value.key_of_isKey hkey
  obtain ⟨p, hp, hfirst⟩ := reads_key h hne hl hk (v.endsWord_afterKey k rest.text) hI
  obtain ⟨z', hvalue, hz⟩ := hv p _ hp
  exact ⟨z', hfirst.trans hvalue, hz⟩

theorem reads_flag (b : Bool) (hn : next.Regular) (hi : next.indent ≤ k) :
    ReadsValue k I (.flag b) next := by
  intro p read hp
  have hs : PlainInner (Value.flagText b) := by
    have hall : (Value.flagText b).all (fun c => isPrintable c && !isBreak c) = true := by
      cases b <;> decide
    refine ⟨fun c hc => ?_, by cases b <;> decide, by cases b <;> decide⟩
    simpa using List.all_eq_true.mp hall c hc
  obtain ⟨z', hr, hz⟩ : ∃ z',
      Reads (atValue p k I read (' ' :: (Value.flagText b ++ '\n' :: next.text))) z' ∧
        Stands z' k (k :: I) (.scalar (Value.flagText b) .plain :: read) next := by
    cases b
    · exact reads_plain hp hn hi hs rfl rfl I read
    · exact reads_plain hp hn hi hs rfl rfl I read
  refine ⟨z', .single ?_, hz⟩
  cases b <;> exact hr

/-- The lines of a record within a list hold its fields. -/
theorem body_of_record {fields : List (String × Value)} (hf : fields ≠ []) (k : Nat) (next : Next) :
    ⟨k, ((Value.record fields).lines k).drop k ++ next.text⟩ = next.fields k fields := by
  obtain ⟨⟨key, v⟩, fields, rfl⟩ := List.exists_cons_of_ne_nil hf
  have hdrop (t : List Char) : (spaces k ++ t).drop k = t := List.drop_left' (List.length_replicate ..)
  rw [Value.lines_record hf, Value.fieldLines, Next.fields, Next.text_fields]
  simp only [List.append_assoc, List.cons_append, hdrop]

mutual

theorem reads_value {k : Nat} {I : List Nat} {next : Next} (v : Value) (hv : v.isRegular = true)
    (hn : next.Regular) (hi : next.indent ≤ k) : ReadsValue k I v next := by
  intro p read hp
  match v with
  | .text s =>
    obtain ⟨z', hr, hz⟩ := reads_scalar hp hn hi s.toList I read
    exact ⟨z', .single hr, hz⟩
  | .flag b => exact reads_flag b hn hi p read hp
  | .list [] => exact reads_noItems hp hn
  | .list (v :: items) =>
    rw [Value.isRegular] at hv
    have h := stands_before_line (Next.regular_items (k := k) hn (v :: items)) p (Nat.le_refl k) I read
    obtain ⟨z', hr, hz⟩ := reads_items (v :: items) hv hn hi h
    rw [next.text_items] at hr
    exact ⟨z', hr, hz⟩
  | .record fields =>
    simp only [Value.isRegular, Bool.and_eq_true, Bool.not_eq_true', List.isEmpty_eq_false_iff] at hv
    have h := stands_before_line (Next.regular_fields (k := k + 2) hn hv.2) p (Nat.le_add_right k 2) I
      read
    obtain ⟨z', hr, hz⟩ := reads_fields fields hv.1 hv.2 hn (Nat.le_add_right_of_le hi)
      (.start (by simp)) h
    rw [next.text_fields] at hr
    refine ⟨z', by rwa [Value.afterKey_record hv.1], ?_⟩
    simpa [Value.tokens] using hz.close (Nat.lt_add_of_pos_right (Nat.succ_pos 1))

/-- Fields are read in order, the first one opening a mapping if there is none yet. -/
theorem reads_fields {z : Scan} {k : Nat} {I₀ I : List Nat} {ts read : List Token} {next : Next}
    (fields : List (String × Value)) (hf : fields ≠ []) (hv : Value.regularFields fields = true)
    (hn : next.Regular) (hi : next.indent ≤ k) (ho : Opening k I₀ I ts)
    (h : Stands z k I₀ read (next.fields k fields)) : ∃ z', Relation.ReflTransGen Reads z z' ∧
      Stands z' k (k :: I) ((Value.fieldTokens fields).reverse ++ (ts ++ read)) next := by
  match fields with
  | (key, v) :: fields =>
    simp only [Value.regularFields, Bool.and_eq_true] at hv
    obtain ⟨⟨hkey, hv⟩, hfs⟩ := hv
    have hvalue := reads_value (I := I) v hv (Next.regular_fields (k := k) hn hfs)
      (next.indent_fields_le hi fields)
    obtain ⟨z₁, hr₁, hz₁⟩ := reads_field hkey hvalue ho h
    by_cases hrest : fields = []
    · subst hrest
      exact ⟨z₁, hr₁, by simpa [Value.fieldTokens, Next.fields] using hz₁⟩
    · obtain ⟨z₂, hr₂, hz₂⟩ := reads_fields fields hrest hfs hn hi (.stay I) hz₁
      exact ⟨z₂, hr₁.trans hr₂, by simpa [Value.fieldTokens] using hz₂⟩

/-- Items are read in order, each one a record behind its hyphen. -/
theorem reads_items {z : Scan} {k : Nat} {I : List Nat} {read : List Token} {next : Next}
    (items : List Value) (hv : Value.regularItems items = true) (hn : next.Regular)
    (hi : next.indent ≤ k) (h : Stands z k (k :: I) read (next.items k items)) :
    ∃ z', Relation.ReflTransGen Reads z z' ∧
      Stands z' k (k :: I) ((Value.itemTokens items).reverse ++ read) next := by
  match items with
  | [] => exact ⟨z, .refl, h⟩
  | .record fields :: items =>
    simp only [Value.regularItems, Value.isRegular, Bool.and_eq_true, Bool.not_eq_true',
      List.isEmpty_eq_false_iff] at hv
    obtain ⟨⟨-, hne, hfs⟩, hvs⟩ := hv
    have hbody := body_of_record hne (k + 2) (next.items k items)
    have hregular := Next.regular_fields (k := k + 2) (Next.regular_items (k := k) hn items) hfs
    obtain ⟨z₁, hr₁, hz₁⟩ := reads_entry h (hbody ▸ hregular)
    rw [hbody] at hz₁
    obtain ⟨z₂, hr₂, hz₂⟩ := reads_fields fields hne hfs (Next.regular_items (k := k) hn items)
      (Nat.le_add_right_of_le (next.indent_items_le hi items)) (.start (by simp)) hz₁
    obtain ⟨z₃, hr₃, hz₃⟩ := reads_items items hvs hn hi
      (hz₂.close (Nat.lt_add_of_pos_right (Nat.succ_pos 1)))
    refine ⟨z₃, .head hr₁ (hr₂.trans hr₃), ?_⟩
    simpa [Value.itemTokens, Value.tokens] using hz₃

end

/-! ## Files -/

theorem stands_start (hn : next.Regular) (hi : next.indent = 0) :
    Stands (start next.body) 0 [] [] next := by
  have hz : (start next.body).toNext = start next.body := by
    cases hn with
    | ended => rfl
    | line hc => exact toNext_eq (start _) (skipGap_of_isWordChar hc _ _)
  refine Stands.of_indents rfl rfl ?_ ?_ ?_ nofun
  · rw [hz]
    rfl
  · rw [hz]
    rfl
  · rw [hz, hi]
    exact fun _ => rfl

/-- At the end of a file all blocks are closed. -/
theorem Stands.finish_eq (h : Stands z k I read ⟨0, []⟩) :
    z.step = .ok none ∧ z.finish = .ok (read.reverse ++ List.replicate I.length .blockEnd) := by
  have hrest : z.toNext.rest = [] := h.rest
  refine ⟨by simp [step, hrest], ?_⟩
  have ho : (z.closeBlocks (some k)).outer = [] := by
    unfold closeBlocks
    split <;> exact h.outer
  have hz : (z.closeBlocks (some k)).closeBlocks none = _ :=
    closeBlocks_eq (A := I) (B := []) ho (by simp) (by simp) (h.indents_eq.trans (by simp))
  rw [closeBlocks_closeBlocks h.outer (by simp)] at hz
  have hc : z.toNext.candidate.any (·.required) = false := h.candidate
  rw [finish, closeBlocks_toNext, hz, h.read_eq]
  simp [dropCandidate, hc, bind, Except.bind]

end Scan

/-- The tokens of a file that holds a record. -/
theorem tokens_fieldLines {fields : List (String × Value)} (hf : fields ≠ [])
    (hv : Value.regularFields fields = true) :
    tokens (Value.fieldLines 0 fields) = .ok (Value.record fields).tokens := by
  have hn : (Next.fields 0 ⟨0, []⟩ fields).Regular := Next.regular_fields .ended hv
  have hi : (Next.fields 0 ⟨0, []⟩ fields).indent = 0 :=
    Nat.le_zero.mp (Next.indent_fields_le (Nat.le_refl 0) fields)
  have hbody : (Next.fields 0 ⟨0, []⟩ fields).body = Value.fieldLines 0 fields := by
    have htext := Next.text_fields 0 ⟨0, []⟩ fields
    rw [Next.text, hi] at htext
    exact htext.trans (List.append_nil _)
  have hstart := Scan.stands_start hn hi
  rw [hbody] at hstart
  obtain ⟨z, hr, hz⟩ := Scan.reads_fields fields hf hv .ended (Nat.le_refl 0) (.start (by simp)) hstart
  obtain ⟨hstep, hfinish⟩ := hz.finish_eq
  rw [tokens]
  refine (Scan.run_of_reads hr hstep (Nat.lt_succ_self _)).trans (hfinish.trans ?_)
  simp [Value.tokens]

end Relabel.Yaml
