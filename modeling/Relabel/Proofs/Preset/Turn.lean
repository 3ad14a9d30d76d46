import Relabel.Proofs.Preset.Store
import Relabel.Proofs.World.Talk

/-!
# Turns of a store

A store comes out of an operation in one of four ways: as it was, edited, read from its file, or
written into its file. Talk before and after the operation changes nothing of that.

* `Store.Dealing`: the four ways.
* `Store.Turn`: the same where no host has been asked for anything.
* `Store.turn_reload`, `Store.turn_save`, `Store.turn_save_error`, `Store.turn_given_up`: the
  traffic with the file.
-/

namespace Relabel

variable {w w' w₁ : World} {path : Path}

/-! ## Files that have been written -/

namespace World

/-- Whether a file has been written is seen from the changes alone. -/
theorem wrote_congr {v v' : World} (h : v.changes = w.changes) (h' : v'.changes = w'.changes) :
    v.Wrote path v' ↔ w.Wrote path w' := by
  unfold Wrote
  rw [h, h']

theorem not_wrote_self (w : World) : ¬ w.Wrote path w := by
  rintro ⟨content, h⟩
  rw [List.drop_length] at h
  cases h

theorem Talk.not_wrote (h : w.Talk w') : ¬ w.Wrote path w' :=
  fun hw => w.not_wrote_self ((wrote_congr rfl h.changes).mp hw)

end World

namespace Store

variable {s s' s₀ : Store} {e : Error}

/-! ## Turns -/

/-- How a store and its file have been dealt with between two worlds. -/
inductive Dealing (s : Store) (w w' : World) : Store → Prop
  /-- Both are as they were. -/
  | kept : ¬ w.Wrote s.path w' → Dealing s w w' s
  /-- The store has been edited. -/
  | edited (c : Catalogue) : ¬ w.Wrote s.path w' → Dealing s w w' (s.edit c)
  /-- The file has been read. -/
  | read {c : Catalogue} : ¬ w.Wrote s.path w' → readCatalogue w.disk s.path = .ok c →
    Dealing s w w' ⟨s.path, c, false⟩
  /-- The file has been written. -/
  | written {c : Catalogue} : w.Wrote s.path w' → readCatalogue w'.disk s.path = .ok c →
    Dealing s w w' ⟨s.path, c, false⟩

/-- A store has been dealt with, and no host has been asked for anything. -/
structure Turn (s : Store) (w w' : World) (s' : Store) : Prop where
  dealing : s.Dealing w w' s'
  requests : w'.requests = w.requests

namespace Turn

theorem talk (h : w.Talk w') : s.Turn w w' s := ⟨.kept h.not_wrote, h.requests⟩

/-- What is said before an operation does not matter. -/
theorem after (h : w.Talk w₁) (t : s.Turn w₁ w' s') : s.Turn w w' s' := by
  have hw : w₁.Wrote s.path w' ↔ w.Wrote s.path w' := World.wrote_congr h.changes rfl
  refine ⟨?_, t.requests.trans h.requests⟩
  cases t.dealing with
  | kept hn => exact .kept (hw.not.mp hn)
  | edited c hn => exact .edited c (hw.not.mp hn)
  | read hn hr => exact .read (hw.not.mp hn) (h.disk ▸ hr)
  | written hn hr => exact .written (hw.mp hn) hr

/-- What is said after an operation does not matter. -/
theorem before (t : s.Turn w w₁ s') (h : w₁.Talk w') : s.Turn w w' s' := by
  have hw : w.Wrote s.path w' ↔ w.Wrote s.path w₁ := World.wrote_congr rfl h.changes
  refine ⟨?_, h.requests.trans t.requests⟩
  cases t.dealing with
  | kept hn => exact .kept (hw.not.mpr hn)
  | edited c hn => exact .edited c (hw.not.mpr hn)
  | read hn hr => exact .read (hw.not.mpr hn) hr
  | written hn hr => exact .written (hw.mpr hn) (h.disk ▸ hr)

end Turn

/-! ## Reading -/

theorem talk_missingNote (path : Path) (w : World) :
    w.Talk { w with journal := w.journal ++ missingNote path w } := by
  refine .journal w ?_
  unfold missingNote
  split
  · exact List.not_mem_nil
  · exact refreshNote_notMem_of_head (by simp [toString])

theorem talk_reload (s : Store) (w : World) : w.Talk (Act.on s.reload w).2 := by
  rw [on_reload]
  exact talk_missingNote s.path w

theorem reload_ok (h : Act.on s.reload w = (.ok s', w')) :
    ∃ c, readCatalogue w.disk s.path = .ok c ∧ s' = ⟨s.path, c, false⟩ := by
  rw [on_reload] at h
  cases hc : readCatalogue w.disk s.path with
  | error e =>
    rw [hc] at h
    cases h
  | ok c =>
    rw [hc] at h
    cases h
    exact ⟨c, rfl, rfl⟩

theorem turn_reload (h : Act.on s.reload w = (.ok s', w')) : s.Turn w w' s' := by
  have ht := talk_reload s w
  rw [h] at ht
  obtain ⟨c, hc, rfl⟩ := reload_ok h
  exact ⟨.read ht.not_wrote hc, ht.requests⟩

/-! ## Writing -/

/-- The store comes of edits to `s₀`. -/
def Reworks (s s₀ : Store) : Prop := s = s₀ ∨ ∃ c, s = s₀.edit c

namespace Reworks

theorem path_eq (h : s.Reworks s₀) : s.path = s₀.path := by
  obtain rfl | ⟨c, rfl⟩ := h <;> rfl

/-- An edit of the presets leaves the path alone. -/
theorem edit (h : s.Reworks s₀) (c : Catalogue) : (s.edit c).Reworks s₀ := by
  obtain rfl | ⟨c, rfl⟩ := h <;> exact .inr ⟨_, rfl⟩

theorem overwrite (s : Store) (p : Preset) : (s.overwrite p).Reworks s := by
  unfold Store.overwrite
  split
  · exact .inr ⟨_, rfl⟩
  · exact .inl rfl

theorem delete (h : s.Reworks s₀) (p : Preset) : (s.delete p).Reworks s₀ := by
  unfold Store.delete
  split
  · exact h.edit _
  · exact h

/-- Edits are a turn, unless the file has been written. -/
theorem turn (h : s.Reworks s₀) (hw : ¬ w.Wrote s₀.path w') (hr : w'.requests = w.requests) :
    s₀.Turn w w' s := by
  obtain rfl | ⟨c, rfl⟩ := h
  · exact ⟨.kept hw, hr⟩
  · exact ⟨.edited c hw, hr⟩

end Reworks

theorem requests_save (s : Store) (w : World) : (Act.on s.save w).2.requests = w.requests := by
  obtain ⟨r, d, folders, hf⟩ := on_makeFolderFor s.path w
  have saved : refreshNote ∉
      [.record .debug s!"Saved {s.catalogue.presets.length} preset(s) to {s.path}"] :=
    refreshNote_notMem_of_head (by simp [toString])
  rw [on_save, hf]
  cases r with
  | error e => rfl
  | ok =>
    dsimp only
    cases d.writeFile s.path (Utf8.encode s.catalogue.render) with
    | error e => rfl
    | ok d' => exact (World.Talk.journal w saved).requests

/-- A store that has been saved agrees with its file. -/
theorem turn_save (s₀ : Store) (h : Act.on s.save w = (.ok s', w')) (hp : s.path = s₀.path) :
    s₀.Turn w w' s' := by
  have hr := requests_save s w
  rw [h] at hr
  obtain ⟨rfl, -, hc, hw⟩ := save_ok h
  rw [hp] at hc hw
  exact ⟨hp ▸ .written hw hc, hr⟩

theorem not_wrote_of_save_error (h : Act.on s.save w = (.error e, w')) (hp : s.path = s₀.path) :
    ¬ w.Wrote s₀.path w' ∧ w'.requests = w.requests := by
  have hr := requests_save s w
  rw [h] at hr
  exact ⟨hp ▸ save_error h, hr⟩

/-- A store that could not be saved may be kept. -/
theorem turn_save_error (hs : s.Reworks s₀) (h : Act.on s.save w = (.error e, w')) :
    s₀.Turn w w' s := by
  obtain ⟨hw, hr⟩ := not_wrote_of_save_error h hs.path_eq
  exact hs.turn hw hr

/-- A store that could not be saved may be given up. -/
theorem turn_given_up (s₀ : Store) (h : Act.on s.save w = (.error e, w'))
    (hp : s.path = s₀.path) : s₀.Turn w w' s₀ := by
  obtain ⟨hw, hr⟩ := not_wrote_of_save_error h hp
  exact ⟨.kept hw, hr⟩

end Store
end Relabel
