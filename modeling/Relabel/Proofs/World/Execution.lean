import Relabel.World

/-!
# Carrying operations out

What an operation comes to in a given world, as a plain value: its answer and the world after it.
The equations for the building blocks of operations are simp lemmas, so that the operations need
not be opened in their terms of monads.

* `Deed.on`, `Act.on`: carry an operation out in a world.
-/

namespace Relabel

variable {α β : Type}

/-! ## Operations that cannot fail -/

namespace Deed

/-- The answer of an operation in a world, and the world after it. -/
def on (m : Deed α) (w : World) : α × World := (m.run w).run

@[simp] theorem on_pure (a : α) (w : World) : on (pure a) w = (a, w) := rfl

/-- The second operation is carried out in the world that the first one has left. -/
@[simp] theorem on_bind (m : Deed α) (f : α → Deed β) (w : World) :
    on (m >>= f) w = on (f (on m w).1) (on m w).2 := rfl

@[simp] theorem on_get (w : World) : on get w = (w, w) := rfl

@[simp] theorem on_modify (f : World → World) (w : World) : on (modify f) w = ((), f w) := rfl

@[simp] theorem on_ite (c : Prop) [Decidable c] (m n : Deed α) (w : World) :
    on (if c then m else n) w = if c then on m w else on n w := by
  split <;> rfl

end Deed

/-! ## Operations that can fail -/

namespace Act

/-- The answer of an operation in a world, and the world after it. -/
def on (m : Act α) (w : World) : Except Error α × World := Deed.on m.run w

theorem on_run (m : Act α) (w : World) : Deed.on m.run w = on m w := rfl

@[simp] theorem on_pure (a : α) (w : World) : on (pure a) w = (.ok a, w) := rfl

@[simp] theorem on_throw (e : Error) (w : World) : on (throw e : Act α) w = (.error e, w) := rfl

/-- The second operation is carried out only if the first one has not failed. What the first one has
done stays done either way. -/
theorem on_bind (m : Act α) (f : α → Act β) (w : World) :
    on (m >>= f) w = match on m w with
      | (.ok a, w') => on (f a) w'
      | (.error e, w') => (.error e, w') := by
  have h : on (m >>= f) w =
    Deed.on (ExceptT.bindCont (m := Deed) f (on m w).1) (on m w).2 := rfl
  rw [h]
  obtain ⟨r, w'⟩ := on m w
  cases r <;> rfl

/-- Two operations have come to an answer only if both of them have. -/
theorem bind_eq_ok {m : Act α} {f : α → Act β} {b : β} {w w' : World}
    (h : on (m >>= f) w = (.ok b, w')) :
    ∃ a w₁, on m w = (.ok a, w₁) ∧ on (f a) w₁ = (.ok b, w') := by
  rw [on_bind] at h
  generalize hm : on m w = r at h
  obtain ⟨_ | a, w₁⟩ := r
  · cases h
  · exact ⟨a, w₁, rfl, h⟩

/-- An operation that cannot fail has no error to hand on. -/
@[simp] theorem on_lift (m : Deed α) (w : World) :
    on (liftM m) w = (.ok (Deed.on m w).1, (Deed.on m w).2) := rfl

end Act

/-! ## The parts of the world -/

namespace World

@[simp] theorem on_tell (es : List Journal.Entry) (w : World) :
    Deed.on (tell es) w = ((), { w with journal := w.journal ++ es }) := rfl

@[simp] theorem on_record (l : Level) (s : String) (w : World) : Deed.on (record l s) w =
    ((), { w with journal := w.journal ++ [.record l s] }) := rfl

@[simp] theorem on_debug (s : String) (w : World) : Deed.on (debug s) w =
    ((), { w with journal := w.journal ++ [.record .debug s] }) := rfl

@[simp] theorem on_info (s : String) (w : World) : Deed.on (info s) w =
    ((), { w with journal := w.journal ++ [.record .info s] }) := rfl

@[simp] theorem on_warn (s : String) (w : World) : Deed.on (warn s) w =
    ((), { w with journal := w.journal ++ [.record .warning s] }) := rfl

/-- An answer is noted by the prompter and in the journal, and nowhere else. -/
@[simp] theorem on_ask (q : Prompter → Reply α) (w : World) : Deed.on (ask q) w =
    ((q w.prompter).answer, { w with
      prompter := (q w.prompter).prompter
      journal := w.journal ++ (q w.prompter).entries }) := rfl

@[simp] theorem on_getDisk (w : World) : Deed.on getDisk w = (w.disk, w) := rfl

/-- A change of the disk is kept with the changes that have been made before. -/
@[simp] theorem on_setDisk (c : Change) (d : Disk) (w : World) : Deed.on (setDisk c d) w =
    ((), { w with disk := d, changes := w.changes ++ [c] }) := rfl

/-- A write that is refused leaves the world as it was. -/
theorem on_writeFile (path : Path) (text : String) (w : World) : Act.on (writeFile path text) w =
    match w.disk.writeFile path (Utf8.encode text) with
    | .ok d => (.ok (), { w with
        disk := d
        changes := w.changes ++ [.write path (Utf8.encode text)] })
    | .error e => (.error (.persistence "write" path e.message), w) := by
  unfold writeFile
  rw [Act.on_bind]
  change Act.on (match w.disk.writeFile path (Utf8.encode text) with
    | .ok d => (setDisk (.write path (Utf8.encode text)) d : Act Unit)
    | .error e => throw (.persistence "write" path e.message)) w = _
  cases w.disk.writeFile path (Utf8.encode text) <;> rfl

/-- The directories that have been made before one is refused stay where they are. -/
theorem on_makeFolders (path : Path) (w : World) : Act.on (makeFolders path) w =
    ((match (w.disk.makeFolders path).2 with
      | none => .ok ()
      | some e => .error (.persistence "create directory" path e.message)),
      { w with
        disk := (w.disk.makeFolders path).1
        changes := w.changes ++ [.makeFolders path] }) := by
  unfold makeFolders
  rw [Act.on_bind]
  change Act.on (setDisk (.makeFolders path) (w.disk.makeFolders path).1 >>= fun _ =>
    match (w.disk.makeFolders path).2 with
    | none => pure ()
    | some e => throw (.persistence "create directory" path e.message)) w = _
  cases (w.disk.makeFolders path).2 <;> rfl

end World
end Relabel
