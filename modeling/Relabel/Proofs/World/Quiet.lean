import Relabel.Proofs.Session.Execution

/-!
# Operations that only say something

Most operations leave the world as it is but for what they tell the user. They are put together from
other operations of this kind.

* `World.Says`: between two worlds something has been said, and nothing else has happened.
* `Deed.Quiet`, `Act.Quiet`, `SessionAct.Quiet`: operations that only say something, closed under
  the building blocks of operations.
-/

namespace Relabel

variable {α β : Type} {w w' w'' : World}

namespace World

/-- Between two worlds something has been said, and nothing else has happened. -/
def Says (w w' : World) : Prop := ∃ es, w' = { w with journal := w.journal ++ es }

namespace Says

theorem refl (w : World) : w.Says w := ⟨[], by rw [List.append_nil]⟩

/-- What is said in two goes is said in one. -/
theorem trans (h : w.Says w') (h' : w'.Says w'') : w.Says w'' := by
  obtain ⟨es, rfl⟩ := h
  obtain ⟨es', rfl⟩ := h'
  exact ⟨es ++ es', by rw [List.append_assoc]⟩

theorem tell (es : List Journal.Entry) (w : World) :
    w.Says { w with journal := w.journal ++ es } :=
  ⟨es, rfl⟩

/-- Where something is only said no file is touched. -/
theorem disk (h : w.Says w') : w'.disk = w.disk := by
  obtain ⟨es, rfl⟩ := h
  rfl

theorem changes (h : w.Says w') : w'.changes = w.changes := by
  obtain ⟨es, rfl⟩ := h
  rfl

/-- Where something is only said nothing is asked. -/
theorem prompter (h : w.Says w') : w'.prompter = w.prompter := by
  obtain ⟨es, rfl⟩ := h
  rfl

end Says
end World

/-! ## Operations that cannot fail -/

namespace Deed

/-- The operation only says something. -/
def Quiet (m : Deed α) : Prop := ∀ w : World, w.Says (on m w).2

namespace Quiet

theorem pure (a : α) : Quiet (pure a : Deed α) := .refl

/-- What is put together from two quiet operations is quiet. -/
theorem bind {m : Deed α} {f : α → Deed β} (hm : m.Quiet) (hf : ∀ a, (f a).Quiet) :
    (m >>= f).Quiet := by
  intro w
  rw [on_bind]
  exact (hm w).trans (hf _ _)

theorem tell (es : List Journal.Entry) : (World.tell es).Quiet := World.Says.tell es

theorem getDisk : World.getDisk.Quiet := .refl

theorem ite {c : Prop} [Decidable c] {m n : Deed α} (hm : m.Quiet) (hn : n.Quiet) :
    (if c then m else n).Quiet := by
  split
  · exact hm
  · exact hn

end Quiet
end Deed

/-! ## Operations that can fail -/

namespace Act

/-- The operation only says something. -/
def Quiet (m : Act α) : Prop := ∀ w : World, w.Says (on m w).2

namespace Quiet

theorem run {m : Act α} (h : m.Quiet) : Deed.Quiet m.run := h

theorem pure (a : α) : Quiet (pure a : Act α) := .refl

theorem throw (e : Error) : Quiet (throw e : Act α) := .refl

theorem get : Quiet (get : Act World) := .refl

theorem lift {m : Deed α} (h : m.Quiet) : Quiet (liftM m) := h

/-- An operation that fails may have said something before. -/
theorem bind {m : Act α} {f : α → Act β} (hm : m.Quiet) (hf : ∀ a, (f a).Quiet) :
    (m >>= f).Quiet := by
  intro w
  rw [on_bind]
  have hw := hm w
  generalize on m w = r at hw
  obtain ⟨_ | a, w'⟩ := r
  · exact hw
  · exact hw.trans (hf a w')

theorem ite {c : Prop} [Decidable c] {m n : Act α} (hm : m.Quiet) (hn : n.Quiet) :
    (if c then m else n).Quiet := by
  split
  · exact hm
  · exact hn

end Quiet
end Act

/-! ## Operations on sessions -/

namespace SessionAct

/-- The operation only says something in the world. -/
def Quiet (m : SessionAct α) : Prop := ∀ (s : Session) (w : World), w.Says (on m s w).2.2

namespace Quiet

theorem pure (a : α) : Quiet (pure a : SessionAct α) := fun _ => .refl

theorem throw (e : Error) : Quiet (throw e : SessionAct α) := fun _ => .refl

theorem get : Quiet (get : SessionAct Session) := fun _ => .refl

theorem modify (f : Session → Session) : Quiet (modify f) := fun _ => .refl

theorem deed {m : Deed α} (h : m.Quiet) : Quiet (deed m) := fun _ => h

/-- A quiet operation on a session is quiet in every session. -/
theorem runOn {m : SessionAct α} (h : m.Quiet) (s : Session) : Deed.Quiet (m.runOn s) := h s

theorem bind {m : SessionAct α} {f : α → SessionAct β} (hm : m.Quiet) (hf : ∀ a, (f a).Quiet) :
    (m >>= f).Quiet := by
  intro s w
  rw [on_bind]
  have hw := hm s w
  generalize on m s w = r at hw
  obtain ⟨_ | a, s', w'⟩ := r
  · exact hw
  · exact hw.trans (hf a s' w')

end Quiet
end SessionAct
end Relabel
