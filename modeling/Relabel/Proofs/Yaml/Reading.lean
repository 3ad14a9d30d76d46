import Relabel.Proofs.Yaml.Document
import Relabel.Yaml.Reading

/-!
# Typed reading of what was written

* `Reader.textOrEmpty_tree`, `Reader.flag_tree`: scalars; no written text stands for nothing.
* `Reader.listOf_tree`, `Reader.fieldsOf_tree`: sequences and records.
* `readText_render`: reading the text of a value is reading its tree.
-/

namespace Relabel.Yaml

variable {α : Type}

/-- What has been written is not an alias. -/
theorem Document.target_tree (d : Document) (v : Value) : d.target v.tree = v.tree := by
  cases v <;> rfl

theorem isNullWord_of_plain {s : List Char} (h : writtenStyle s = .plain) :
    (s.isEmpty || isNullWord s) = false := by
  have ho := (plainText_of_writtenStyle h).other
  simp only [looksOther, Bool.or_eq_false_iff] at ho
  rw [ho.1.1.1.1.1, ho.1.1.1.1.2]
  rfl

namespace Reader

variable {d : Document}

/-- A text is read as it is written, whatever it looks like. -/
theorem text_tree (s : String) : text d (Value.text s).tree = .ok s := by
  rw [text, d.target_tree]
  exact congrArg Except.ok String.ofList_toList

theorem flag_tree (b : Bool) : flag d (Value.flag b).tree = .ok b := by
  rw [flag, d.target_tree]
  cases b <;> rfl

theorem oneOf_tree {ofName? : String → Option α} {word : String} {a : α}
    (h : ofName? word = some a) : oneOf ofName? d (Value.text word).tree = .ok a := by
  rw [oneOf, choice, d.target_tree]
  simp [Value.tree, bind, Except.bind, h]

/-- No written value stands for nothing. -/
theorem isNothing_tree (v : Value) : isNothing v.tree = .ok false := by
  cases v with
  | text s =>
    rw [Value.tree, isNothing.eq_def]
    cases hs : writtenStyle s.toList with
    | plain => exact congrArg Except.ok (isNullWord_of_plain hs)
    | single | double | literal | folded => rfl
  | flag b => cases b <;> rfl
  | list | record => rfl

theorem optional_tree (r : Reader α) (v : Value) :
    optional r d v.tree = some <$> r d v.tree := by
  rw [optional, d.target_tree, isNothing_tree]
  rfl

theorem textOrEmpty_tree (s : String) : textOrEmpty d (Value.text s).tree = .ok s := by
  rw [textOrEmpty, optional_tree, text_tree]
  rfl

theorem itemTrees_eq (items : List Value) : Value.itemTrees items = items.map Value.tree := by
  induction items with
  | nil => rfl
  | cons v items ih => rw [Value.itemTrees, ih, List.map_cons]

/-- A list is read if its items are. -/
theorem listOf_tree {r : Reader α} {toValue : α → Value} (hr : ∀ a, r d (toValue a).tree = .ok a)
    (items : List α) : listOf r d (Value.list (items.map toValue)).tree = .ok items := by
  rw [listOf, d.target_tree, Value.tree, itemTrees_eq, List.map_map]
  dsimp only
  induction items with
  | nil => rfl
  | cons a items ih =>
    rw [List.map_cons, List.mapM_cons, Function.comp_apply, hr, ih]
    rfl

theorem lookup_of_not_mem {name : String} {given : List (String × Tree)}
    (h : name ∉ given.map Prod.fst) : given.lookup name = none := by
  rw [List.lookup_eq_none_iff]
  intro p hp
  exact bne_iff_ne.mpr fun he => h (List.mem_map.mpr ⟨p, hp, he.symm⟩)

theorem addFields_tree {known : List String} (closed : Bool) {fields : List (String × Value)}
    {given : List (String × Tree)} (hk : ∀ f ∈ fields, f.1 ∈ known)
    (hn : (given.map Prod.fst ++ fields.map Prod.fst).Nodup) :
    addFields d known closed (Value.fieldTrees fields) given =
      .ok (given ++ fields.map fun f => (f.1, f.2.tree)) := by
  induction fields generalizing given with
  | nil =>
    rw [List.map_nil, List.append_nil]
    rfl
  | cons f fields ih =>
    obtain ⟨key, v⟩ := f
    obtain ⟨hkey, hk⟩ := List.forall_mem_cons.mp hk
    have hnew : given.lookup key = none := by
      refine lookup_of_not_mem fun h => ?_
      rw [List.map_cons, List.nodup_append] at hn
      exact hn.2.2 key h key (List.mem_cons_self ..) rfl
    have hname : text d (.scalar .none key.toList .plain) = .ok key :=
      congrArg Except.ok String.ofList_toList
    have hrest : addFields d known closed (Value.fieldTrees fields) (given ++ [(key, v.tree)]) =
        .ok ((given ++ [(key, v.tree)]) ++ fields.map fun f => (f.1, f.2.tree)) :=
      ih hk (by simpa using hn)
    rw [Value.fieldTrees, addFields, hname]
    simpa [bind, Except.bind, hkey, hnew] using hrest

/-- A record is read if its fields are known and different. -/
theorem fieldsOf_tree {known : List String} (closed : Bool) {fields : List (String × Value)}
    (hk : ∀ f ∈ fields, f.1 ∈ known) (hn : (fields.map Prod.fst).Nodup) :
    fieldsOf known closed d (Value.record fields).tree =
      .ok (fields.map fun f => (f.1, f.2.tree)) := by
  rw [fieldsOf, d.target_tree, Value.tree]
  exact addFields_tree closed hk hn

end Reader

/-- Reading the text of a record is reading its tree. -/
theorem readText_render {v : Value} (hv : v.isRegular = true) (hr : v.isRecord = true)
    (nothing : Except Problem α) (r : Reader α) :
    readText nothing r v.render = r ⟨v.tree, []⟩ v.tree := by
  rw [readText, Document.ofText?_render hv hr]
  rfl

end Relabel.Yaml
