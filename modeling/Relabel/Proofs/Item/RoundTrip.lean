import Relabel.Item.Manifest
import Relabel.Proofs.Disk.Writing
import Relabel.Proofs.World.Execution
import Relabel.Proofs.Yaml.Reading

/-!
# The manifest is read back

* `Manifest.ofText_render`: the text that is written for a manifest is read as this manifest.
* `Manifest.save_of_ofFile`: where a manifest has been read one can be written, and is read there.
* `Manifest.load_of_save`: loading gives the manifest that has been saved.
-/

namespace Relabel

open Yaml (Value Reader Document)

variable {d : Document}

theorem Kind.ofName?_name (k : Kind) : ofName? k.name = some k := by cases k <;> decide

namespace Listing

theorem isRegular_toValue (l : Listing) : l.toValue.isRegular = true := by
  have hkeys : ["name", "kind", "context", "locked"].all Value.isKey = true := by decide
  simp only [List.all_cons, List.all_nil, Bool.and_true, Bool.and_eq_true] at hkeys
  obtain ⟨name, kind, context, locked⟩ := l
  cases context <;> cases locked <;>
    simp [toValue, Value.isRegular, Value.regularFields, hkeys]

/-- What is not written is what a missing field stands for. -/
theorem read_tree (l : Listing) : read d l.toValue.tree = .ok l := by
  obtain ⟨name, kind, context, locked⟩ := l
  have hkind : Reader.oneOf Kind.ofName? d (Value.text kind.name).tree = .ok kind :=
    Reader.oneOf_tree kind.ofName?_name
  cases context <;> cases locked <;>
  · rw [read, toValue, Reader.fieldsOf_tree false (by simp) (by simp)]
    simp [bind, Except.bind, Reader.required, Reader.orElse, List.lookup_cons, Reader.text_tree,
      hkind, Reader.optional_tree, Reader.flag_tree, Functor.map, Except.map]

/-- A context is written if there is one, and a lock if the item has one. -/
theorem toValue_keys (l : Listing) : ∃ fields, l.toValue = .record fields ∧
    fields.map Prod.fst = ["name", "kind"] ++ (if l.context.isSome then ["context"] else []) ++
      if l.locked then ["locked"] else [] := by
  obtain ⟨name, kind, context, locked⟩ := l
  refine ⟨_, rfl, ?_⟩
  cases context <;> cases locked <;> rfl

end Listing

namespace Manifest

theorem isRegular_items (listings : List Listing) :
    Value.regularItems (listings.map Listing.toValue) = true :=
  Value.regularItems_map (fun l => Bool.and_eq_true_iff.mpr ⟨rfl, l.isRegular_toValue⟩) listings

theorem isRegular_toValue (m : Manifest) : m.toValue.isRegular = true := by
  have hkey : Value.isKey "items" = true := by decide
  simp [toValue, Value.isRegular, Value.regularFields, hkey, isRegular_items]

/-- The text that is written for a manifest is read as this manifest. -/
theorem ofText_render (m : Manifest) : ofText m.render = .ok m := by
  rw [ofText, render, Yaml.readText_render m.isRegular_toValue rfl, read, toValue,
    Reader.fieldsOf_tree false (by simp) (by simp)]
  simp [bind, Except.bind, Reader.orElse, Reader.listOf_tree Listing.read_tree]

theorem ofFile_of_writeFile {disk disk' : Disk} {path : Path} {m : Manifest}
    (h : disk.writeFile path (Utf8.encode m.render) = .ok disk') : ofFile disk' path = .ok m := by
  rw [ofFile, (Disk.readText_writeFile h).2]
  dsimp only
  rw [m.ofText_render]

/-- Where a manifest has been read another one can be written, and is then read there. The disk has
no files that can be read and not be written (`Disk.writeFile_of_readText`). -/
theorem save_of_ofFile {disk : Disk} {path : Path} {m : Manifest} (h : ofFile disk path = .ok m)
    (m' : Manifest) : ∃ disk', disk.writeFile path (Utf8.encode m'.render) = .ok disk' ∧
      ofFile disk' path = .ok m' := by
  unfold ofFile at h
  cases hr : disk.readText path with
  | error e =>
    rw [hr] at h
    cases h
  | ok text =>
    obtain ⟨disk', hw⟩ := Disk.writeFile_of_readText hr (Utf8.encode m'.render)
    exact ⟨disk', hw, ofFile_of_writeFile hw⟩

/-! ## The file -/

variable {path : Path} {w w' : World}

theorem on_load (path : Path) (w : World) : Act.on (load path) w = (ofFile w.disk path, w) := by
  unfold load
  rw [Act.on_bind, Act.on_lift]
  dsimp only [World.on_getDisk]
  cases ofFile w.disk path <;> rfl

theorem save_ok {m : Manifest} (h : Act.on (m.save path) w = (.ok (), w')) :
    ofFile w'.disk path = .ok m := by
  rw [save, World.on_writeFile] at h
  split at h
  · next d hd =>
    cases h
    exact ofFile_of_writeFile hd
  · cases h

/-- Every manifest is loaded as it has been saved, its text differs from that of every other
manifest. Only contexts and locks that are there are written.

It can also be saved wherever one has been loaded, on a disk without files that can be read and not
be written (`Disk.writeFile_of_readText`). -/
theorem load_of_save (m : Manifest) :
    ofText m.render = .ok m ∧
      (∀ m' : Manifest, m'.render = m.render → m' = m) ∧
      (∀ path w w', Act.on (m.save path) w = (.ok (), w') →
        Act.on (load path) w' = (.ok m, w')) ∧
      (∀ path w m₀, (Act.on (load path) w).1 = .ok m₀ →
        ∃ w', Act.on (m.save path) w = (.ok (), w')) ∧
      ∀ l ∈ m.listings, ∃ fields, l.toValue = .record fields ∧
        fields.map Prod.fst = ["name", "kind"] ++ (if l.context.isSome then ["context"] else []) ++
          if l.locked then ["locked"] else [] := by
  refine ⟨m.ofText_render, fun m' h => ?_, fun path w w' h => ?_, fun path w m₀ h => ?_,
    fun l _ => l.toValue_keys⟩
  · have hm := m'.ofText_render
    rw [h, m.ofText_render] at hm
    cases hm
    rfl
  · rw [on_load, save_ok h]
  · rw [on_load] at h
    obtain ⟨d, hd, -⟩ := save_of_ofFile h m
    rw [save, World.on_writeFile, hd]
    exact ⟨_, rfl⟩

/-- Names and contexts that look like something else, where another manifest was before. -/
theorem load_of_save_lookalikes :
    let path : Path := .ofString "m"
    let old := "items:\n- name: a\n  kind: clip\n"
    let disk : Disk := ⟨[.folder 0 [(Utf8.encode "m", 1)], .file (Utf8.encode old)], 0⟩
    let w : World := ⟨disk, [], [], ⟨2024, 2, 21, 15, 7, 0⟩, .fixed none true [], [], 0⟩
    let m : Manifest := ⟨[⟨"~", .clip, none, false⟩, ⟨"1e3", .segment, some "", true⟩,
      ⟨" yes", .reelGroup, some "null", false⟩, ⟨"", .transition, some "a: 'b\n\n", true⟩]⟩
    ∃ w', Act.on (m.save path) w = (.ok (), w') ∧ Act.on (load path) w' = (.ok m, w') ∧
      w'.disk ≠ w.disk := by
  intro path old disk w m
  have hold : (Act.on (load path) w).1 = .ok ⟨[⟨"a", .clip, none, false⟩]⟩ := by decide +kernel
  obtain ⟨-, -, hload, hsave, -⟩ := load_of_save m
  obtain ⟨w', hw⟩ := hsave path w _ hold
  refine ⟨w', hw, hload path w w' hw, fun h => ?_⟩
  have hm := save_ok hw
  rw [h] at hm
  exact absurd hm (by decide +kernel)

end Manifest
end Relabel
