import Relabel.Proofs.Yaml.Tokens
import Relabel.Yaml.Node

/-!
# A written value is read back

* `Value.tree`: the tree that a written value is read as.
* `Node.read_tokens`, `Node.number_node`: the tokens of a value give its tree.
* `Document.ofText?_render`: the document of a file that holds a record.
-/

namespace Relabel.Yaml

namespace Value

mutual

/-- The node of a value. -/
def node : Value → Node
  | .text s => .scalar .none s.toList (writtenStyle s.toList)
  | .flag b => .scalar .none (flagText b) .plain
  | .list items => .sequence .none (itemNodes items)
  | .record fields => .mapping .none (fieldNodes fields)

def itemNodes : List Value → List Node
  | [] => []
  | v :: vs => v.node :: itemNodes vs

def fieldNodes : List (String × Value) → List (Node × Node)
  | [] => []
  | (key, v) :: fields => (.scalar .none key.toList .plain, v.node) :: fieldNodes fields

end

mutual

/-- The tree of a value. -/
def tree : Value → Tree
  | .text s => .scalar .none s.toList (writtenStyle s.toList)
  | .flag b => .scalar .none (flagText b) .plain
  | .list items => .sequence .none (itemTrees items)
  | .record fields => .mapping .none (fieldTrees fields)

def itemTrees : List Value → List Tree
  | [] => []
  | v :: vs => v.tree :: itemTrees vs

def fieldTrees : List (String × Value) → List (Tree × Tree)
  | [] => []
  | (key, v) :: fields => (.scalar .none key.toList .plain, v.tree) :: fieldTrees fields

end

/-! ## Characters -/

theorem shown_closeLine {s : List Char} (h : Shown s) : Shown (closeLine s) := by
  rw [closeLine_eq, shown_append, lineEnd]
  refine ⟨h, ?_⟩
  split
  · exact shown_nil
  · exact shown_cons.mpr ⟨rfl, shown_nil⟩

theorem shown_key {key : String} (h : isKey key = true) : Shown key.toList := fun c hc =>
  isPrintable_of_isWordChar (isWordChar_of_isKeyChar ((key_of_isKey h).2.2 c hc))

mutual

theorem shown_afterKey (k : Nat) (v : Value) (hv : v.isRegular = true) : Shown (v.afterKey k) := by
  match v with
  | .text s => exact shown_closeLine (shown_cons.mpr ⟨rfl, shown_written (k + 2) s.toList⟩)
  | .flag b =>
    rw [afterKey]
    cases b <;> exact shown_of_all (by decide)
  | .list [] =>
    exact shown_of_all (by decide : " []\n".toList.all isPrintable = true)
  | .list (v :: items) =>
    rw [isRegular] at hv
    exact shown_cons.mpr ⟨rfl, shown_itemLines k (v :: items) hv⟩
  | .record fields =>
    simp only [isRegular, Bool.and_eq_true, Bool.not_eq_true', List.isEmpty_eq_false_iff] at hv
    rw [afterKey_record hv.1]
    exact shown_cons.mpr ⟨rfl, shown_fieldLines (k + 2) fields hv.2⟩

theorem shown_itemLines (k : Nat) (items : List Value) (hv : regularItems items = true) :
    Shown (itemLines k items) := by
  match items with
  | [] => exact shown_nil
  | .record fields :: items =>
    simp only [regularItems, isRegular, Bool.and_eq_true, Bool.not_eq_true',
      List.isEmpty_eq_false_iff] at hv
    obtain ⟨⟨-, hne, hfs⟩, hvs⟩ := hv
    have hshown := shown_fieldLines (k + 2) fields hfs
    rw [itemLines, lines_record hne]
    simp only [shown_append, shown_cons]
    exact ⟨⟨shown_spaces k, rfl, rfl, fun c hc => hshown c (List.mem_of_mem_drop hc)⟩,
      shown_itemLines k items hvs⟩

theorem shown_fieldLines (k : Nat) (fields : List (String × Value))
    (hv : regularFields fields = true) : Shown (fieldLines k fields) := by
  match fields with
  | [] => exact shown_nil
  | (key, v) :: fields =>
    simp only [regularFields, Bool.and_eq_true] at hv
    simp only [fieldLines, shown_append, shown_cons]
    exact ⟨⟨⟨shown_spaces k, shown_key hv.1.1⟩, rfl, shown_afterKey k v hv.1.2⟩,
      shown_fieldLines k fields hv.2⟩

end

end Value

/-! ## Trees -/

namespace Node

variable {handles : Handles}

theorem read_scalar (fuel : Nat) (block bare : Bool) (s : List Char) (style : Style)
    (ts : List Token) :
    read handles (fuel + 1) block bare (.scalar s style :: ts) = .ok (.scalar .none s style, ts) := by
  simp [read, readProps, bind, Except.bind, scalarProps, Props.none]

theorem read_noItems (fuel : Nat) (block bare : Bool) (ts : List Token) :
    read handles (fuel + 2) block bare (.flowSequenceStart :: .flowSequenceEnd :: ts) =
      .ok (.sequence .none [], ts) := by
  simp [read, readProps, readBrackets, bind, Except.bind]

theorem read_bareEntries {fuel : Nat} {block : Bool} {items : List Node} {ts rest : List Token}
    (h : readBareEntries handles fuel (.blockEntry :: ts) = .ok (items, rest)) :
    read handles (fuel + 1) block true (.blockEntry :: ts) = .ok (.sequence .none items, rest) := by
  simp [read, readProps, h, bind, Except.bind]

theorem read_mapping {fuel : Nat} {bare : Bool} {entries : List (Node × Node)}
    {ts rest : List Token} (h : readMapping handles fuel ts = .ok (entries, rest)) :
    read handles (fuel + 1) true bare (.blockMappingStart :: ts) =
      .ok (.mapping .none entries, rest) := by
  simp [read, readProps, h, bind, Except.bind]

theorem readMapping_cons {fuel : Nat} {v : Node} {entries : List (Node × Node)}
    {ts ts' rest : List Token} (he : endsMappingPart ts = false)
    (hv : read handles (fuel + 1) true true ts = .ok (v, ts'))
    (h : readMapping handles (fuel + 1) ts' = .ok (entries, rest)) (key : List Char) :
    readMapping handles (fuel + 2) (.key :: .scalar key .plain :: .value :: ts) =
      .ok ((.scalar .none key .plain, v) :: entries, rest) := by
  have hkey : endsMappingPart (.scalar key .plain :: .value :: ts) = false := rfl
  rw [readMapping]
  simp only [hkey, he, Bool.false_eq_true, if_false, read_scalar, hv, h, bind, Except.bind]

theorem readBareEntries_cons {fuel : Nat} {v : Node} {items : List Node} {ts ts' rest : List Token}
    (he : endsEntry ts = false) (hv : read handles fuel true false ts = .ok (v, ts'))
    (h : readBareEntries handles fuel ts' = .ok (items, rest)) :
    readBareEntries handles (fuel + 1) (.blockEntry :: ts) = .ok (v :: items, rest) := by
  rw [readBareEntries]
  simp [he, hv, h, bind, Except.bind]

/-- A list without a mark of its own ends where no entry follows. -/
theorem readBareEntries_nil (fuel : Nat) {ts : List Token} (ht : ts.head? ≠ some .blockEntry) :
    readBareEntries handles (fuel + 1) ts = .ok ([], ts) := by
  rw [readBareEntries]
  rintro _ rfl
  exact ht rfl

/-- No value begins with what ends an entry. -/
theorem endsMappingPart_tokens (v : Value) (ts : List Token) :
    endsMappingPart (v.tokens ++ ts) = false := by
  match v with
  | .text _ | .flag _ | .list [] | .record _ => rfl
  | .list (v :: items) => rfl

theorem endsEntry_tokens {v : Value} (hv : v.isRecord = true) (ts : List Token) :
    endsEntry (v.tokens ++ ts) = false := by
  match v with
  | .record _ => rfl

theorem head?_fieldTokens (fields : List (String × Value)) (ts : List Token) :
    (Value.fieldTokens fields ++ .blockEnd :: ts).head? ≠ some .blockEntry := by
  cases fields with
  | nil => nofun
  | cons => nofun

mutual

/-- The tokens of a value are read as the node of this value, with fuel for each of them. -/
theorem read_tokens (v : Value) (hv : v.isRegular = true) {fuel : Nat} {bare : Bool}
    {ts : List Token} (hf : 2 * v.tokens.length + 2 ≤ fuel)
    (hb : v.isRecord = true ∨ bare = true ∧ ts.head? ≠ some .blockEntry) :
    read handles fuel true bare (v.tokens ++ ts) = .ok (v.node, ts) := by
  obtain ⟨fuel, rfl⟩ : ∃ n, fuel = n + 2 := ⟨fuel - 2, by omega⟩
  match v with
  | .text s => exact read_scalar _ true bare s.toList (writtenStyle s.toList) ts
  | .flag b => exact read_scalar _ true bare (Value.flagText b) .plain ts
  | .list [] => exact read_noItems fuel true bare ts
  | .list (v :: items) =>
    obtain ⟨rfl, ht⟩ := hb.resolve_left nofun
    rw [Value.isRegular] at hv
    exact read_bareEntries (readBareEntries_tokens (v :: items) hv (Nat.le_of_succ_le_succ hf) ht)
  | .record fields =>
    simp only [Value.isRegular, Bool.and_eq_true] at hv
    simp only [Value.tokens, List.length_cons, List.length_append] at hf
    have hf : 2 * (Value.fieldTokens fields).length + 1 ≤ fuel + 1 := by omega
    simpa [Value.tokens, Value.node] using read_mapping (readMapping_tokens fields hv.2 hf ts)

/-- The tokens of the fields are read as entries, in order. -/
theorem readMapping_tokens (fields : List (String × Value)) (hv : Value.regularFields fields = true)
    {fuel : Nat} (hf : 2 * (Value.fieldTokens fields).length + 1 ≤ fuel) (ts : List Token) :
    readMapping handles fuel (Value.fieldTokens fields ++ .blockEnd :: ts) =
      .ok (Value.fieldNodes fields, ts) := by
  match fields with
  | [] =>
    obtain ⟨fuel, rfl⟩ : ∃ n, fuel = n + 1 := ⟨fuel - 1, by omega⟩
    rfl
  | (key, v) :: fields =>
    simp only [Value.fieldTokens, List.length_cons, List.length_append] at hf
    obtain ⟨fuel, rfl⟩ : ∃ n, fuel = n + 2 := ⟨fuel - 2, by omega⟩
    simp only [Value.regularFields, Bool.and_eq_true] at hv
    have hvalue : 2 * v.tokens.length + 2 ≤ fuel + 1 := by omega
    have hrest : 2 * (Value.fieldTokens fields).length + 1 ≤ fuel + 1 := by omega
    have h := readMapping_cons (endsMappingPart_tokens v _)
      (read_tokens v hv.1.2 hvalue (.inr ⟨rfl, head?_fieldTokens fields ts⟩))
      (readMapping_tokens fields hv.2 hrest ts)
    simpa [Value.fieldTokens, Value.fieldNodes] using h key.toList

/-- The tokens of the items are read as items, in order. -/
theorem readBareEntries_tokens (items : List Value) (hv : Value.regularItems items = true)
    {fuel : Nat} (hf : 2 * (Value.itemTokens items).length + 1 ≤ fuel) {ts : List Token}
    (ht : ts.head? ≠ some .blockEntry) :
    readBareEntries handles fuel (Value.itemTokens items ++ ts) = .ok (Value.itemNodes items, ts) := by
  obtain ⟨fuel, rfl⟩ : ∃ n, fuel = n + 1 := ⟨fuel - 1, by omega⟩
  match items with
  | [] => exact readBareEntries_nil fuel ht
  | v :: items =>
    simp only [Value.itemTokens, List.length_cons, List.length_append] at hf
    simp only [Value.regularItems, Bool.and_eq_true] at hv
    have hvalue : 2 * v.tokens.length + 2 ≤ fuel := by omega
    have hrest : 2 * (Value.itemTokens items).length + 1 ≤ fuel := by omega
    have h := readBareEntries_cons (endsEntry_tokens hv.1.1 _)
      (read_tokens v hv.1.2 hvalue (.inl hv.1.1))
      (readBareEntries_tokens items hv.2 hrest ht)
    simpa [Value.itemTokens, Value.itemNodes] using h

end

mutual

/-- A written value names nothing. -/
theorem number_node (names : Numbers) (v : Value) : v.node.number names = .ok ⟨v.tree, names, []⟩ := by
  match v with
  | .text s => rfl
  | .flag b => rfl
  | .list items =>
    rw [Value.node, number]
    simp [begin, numberItems_itemNodes names items, Value.tree, bind, Except.bind, withNumber,
      Props.none]
  | .record fields =>
    rw [Value.node, number]
    simp [begin, numberEntries_fieldNodes names fields, Value.tree, bind, Except.bind, withNumber,
      Props.none]

theorem numberItems_itemNodes (names : Numbers) (items : List Value) :
    numberItems names (Value.itemNodes items) = .ok ⟨Value.itemTrees items, names, []⟩ := by
  match items with
  | [] => rfl
  | v :: items =>
    rw [Value.itemNodes, numberItems]
    simp [number_node names v, numberItems_itemNodes names items, Value.itemTrees, bind, Except.bind]

theorem numberEntries_fieldNodes (names : Numbers) (fields : List (String × Value)) :
    numberEntries names (Value.fieldNodes fields) = .ok ⟨Value.fieldTrees fields, names, []⟩ := by
  match fields with
  | [] => rfl
  | (key, v) :: fields =>
    have hkey : number names (.scalar .none key.toList .plain) =
      .ok ⟨.scalar .none key.toList .plain, names, []⟩ := rfl
    rw [Value.fieldNodes, numberEntries]
    simp [hkey, number_node names v, numberEntries_fieldNodes names fields, Value.fieldTrees, bind,
      Except.bind]

end

end Node

/-! ## Documents -/

namespace Document

variable {v : Value}

/-- The fuel that is given is enough for the tokens of a value. -/
theorem readNode_tokens (hv : v.isRegular = true) (hr : v.isRecord = true) :
    readNode v.tokens = .ok (v.node, []) := by
  have hf : 2 * v.tokens.length + 2 ≤ fuelFor v.tokens := by
    unfold fuelFor
    omega
  have hread : Node.read Node.standardHandles (fuelFor v.tokens) true false (v.tokens ++ []) =
      .ok (v.node, []) := Node.read_tokens v hv hf (.inl hr)
  rw [List.append_nil] at hread
  match v with
  | .record fields =>
    have hd : declarations ⟨false, []⟩ (Value.record fields).tokens =
      .ok (⟨false, []⟩, (Value.record fields).tokens) := rfl
    rw [readNode, hd]
    change (if (Value.record fields).tokens.length < (Value.record fields).tokens.length then _ else
      Node.read Node.standardHandles (fuelFor (Value.record fields).tokens) true false _) = _
    rw [if_neg (Nat.lt_irrefl _)]
    exact hread

/-- A single node with nothing behind it is the document. -/
theorem ofTokens?_eq {ts : List Token} {node : Node} {r : Node.Numbered Tree} (hts : ts ≠ [])
    (h : readNode ts = .ok (node, [])) (hr : node.number [] = .ok r) :
    ofTokens? ts = .ok (some ⟨r.tree, r.named⟩) := by
  obtain ⟨t, ts, rfl⟩ := List.exists_cons_of_ne_nil hts
  simp [ofTokens?, h, hr, closes, bind, Except.bind]

/-- The document of a file that holds a record. -/
theorem ofText?_render (hv : v.isRegular = true) (hr : v.isRecord = true) :
    ofText? v.render = .ok (some ⟨v.tree, []⟩) := by
  have hnode := readNode_tokens hv hr
  match v with
  | .record fields =>
    simp only [Value.isRegular, Bool.and_eq_true, Bool.not_eq_true', List.isEmpty_eq_false_iff] at hv
    have htext : readable? (Value.record fields).render = some (Value.fieldLines 0 fields) := by
      rw [Value.render, Value.lines_record hv.1]
      exact readable?_ofList (Value.shown_fieldLines 0 fields hv.2)
    rw [ofText?, htext]
    change (tokens (Value.fieldLines 0 fields)).bind ofTokens? = _
    rw [tokens_fieldLines hv.1 hv.2]
    exact ofTokens?_eq (List.cons_ne_nil _ _) hnode (Node.number_node [] (.record fields))

end Document
end Relabel.Yaml
