import Relabel.Preset.Catalogue
import Relabel.Proofs.Yaml.Reading

/-!
# The preset file is read back

* `Catalogue.ofText_render`: the text that is written for a catalogue is read as this catalogue.
-/

namespace Relabel.Catalogue

open Yaml (Value Reader Document)

variable {d : Document}

theorem isRegular_presets (presets : List Preset) :
    Value.regularItems (presets.map presetValue) = true :=
  Value.regularItems_map (fun _ => rfl) presets

theorem isRegular_toValue (c : Catalogue) : c.toValue.isRegular = true := by
  have hkeys : ["settings", "script_name", "title", "version", "number", "presets"].all
      Value.isKey = true := by decide
  simp only [List.all_cons, List.all_nil, Bool.and_true, Bool.and_eq_true] at hkeys
  simp [toValue, Value.isRegular, Value.regularFields, hkeys, isRegular_presets]

theorem readPreset_tree (p : Preset) : readPreset d (presetValue p).tree = .ok p := by
  rw [readPreset, presetValue, Reader.fieldsOf_tree false (by simp) (by simp)]
  simp [bind, Except.bind, Reader.orElse, List.lookup_cons, Reader.textOrEmpty_tree]

/-- Number and presets of a version are read as they are written. -/
theorem readVersion_tree (number : String) (presets : List Preset) :
    readVersion d (Value.record [("number", .text number),
      ("presets", .list (presets.map presetValue))]).tree = .ok (number, presets) := by
  rw [readVersion, Reader.fieldsOf_tree false (by simp) (by simp)]
  simp [bind, Except.bind, Reader.orElse, List.lookup_cons, Reader.textOrEmpty_tree,
    Reader.optional_tree, Reader.listOf_tree readPreset_tree, Functor.map, Except.map]

theorem readOnly_tree {α : Type} (name : String) (r : Reader α) (v : Value) :
    readOnly name r d (Value.record [(name, v)]).tree = r d v.tree := by
  rw [readOnly, Reader.fieldsOf_tree false (by simp) (by simp)]
  simp [bind, Except.bind, Reader.required]

/-- Title and version of a tool are read as they are written. -/
theorem readTool_tree (c : Catalogue) : readTool d (Value.record [("title", .text c.title),
    ("version", .record [("number", .text c.version),
      ("presets", .list (c.presets.map presetValue))])]).tree = .ok c := by
  rw [readTool, Reader.fieldsOf_tree false (by simp) (by simp)]
  simp [bind, Except.bind, Reader.orElse, Reader.required, List.lookup_cons, Reader.textOrEmpty_tree,
    readVersion_tree]

/-- The text that is written for a catalogue is read as this catalogue. -/
theorem ofText_render (c : Catalogue) : ofText c.render = .ok c := by
  rw [ofText, render, Yaml.readText_render (isRegular_toValue c) rfl, read, toValue, readOnly_tree,
    readOnly_tree, readTool_tree]

end Relabel.Catalogue
