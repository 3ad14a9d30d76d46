import Relabel.Proofs.Preset.Store

/-!
# What a user is told of

Records of the level `info` tell the user of what has been done. Whoever asks the user something,
and whoever reads or saves a store, leaves it to others to do so.

* `World.infos`: what the user has been told of.
* `World.Tells`: what the user has been told of between two worlds.
-/

namespace Relabel

/-- The text of a record that tells of something that has been done. -/
def Journal.Entry.info? : Journal.Entry → Option String
  | record .info text => some text
  | _ => none

/-! ## Prompters -/

namespace Prompter

theorem infos_readLine (input : List UInt8) (atTerminal : Bool) :
    (readLine input atTerminal).entries.filterMap Journal.Entry.info? = [] := by
  unfold readLine
  dsimp only
  split
  · rfl
  · split <;> rfl

theorem infos_askName (offered : Option String) (p : Prompter) :
    (p.askName offered).entries.filterMap Journal.Entry.info? = [] := by
  cases p with
  | typist input atTerminal => exact infos_readLine input atTerminal
  | _ => rfl

theorem infos_confirm (title message : String) (p : Prompter) :
    (p.confirm title message).entries.filterMap Journal.Entry.info? = [] := by
  induction p with
  | scripted | fixed => rfl
  | typist input atTerminal =>
    cases atTerminal with
    | false => rfl
    | true => exact infos_readLine input true
  | named name others ih => exact ih

theorem infos_notify (title message : String) (p : Prompter) :
    (p.notify title message).entries.filterMap Journal.Entry.info? = [] := by
  induction p with
  | scripted | fixed | typist => rfl
  | named name others ih => exact ih

end Prompter

/-! ## Worlds -/

namespace World

/-- What the user has been told of, in order. -/
def infos (w : World) : List String := w.journal.filterMap Journal.Entry.info?

/-- Between two worlds the user has been told of this, in order, and of nothing else. -/
def Tells (w : World) (texts : List String) (w' : World) : Prop := w'.infos = w.infos ++ texts

namespace Tells

variable {w w' w'' : World} {ts us : List String}

/-- Two worlds are apart by what the journal has gained, as far as the user is told. -/
theorem of_journal (es : List Journal.Entry) (hj : w'.journal = w.journal ++ es) :
    w.Tells (es.filterMap Journal.Entry.info?) w' := by
  rw [Tells, infos, hj, List.filterMap_append, infos]

theorem of_untold {es : List Journal.Entry} (he : es.filterMap Journal.Entry.info? = [])
    (hj : w'.journal = w.journal ++ es) : w.Tells [] w' := he ▸ of_journal es hj

theorem of_journal_eq (hj : w'.journal = w.journal) : w.Tells [] w' :=
  of_journal [] (hj.trans (List.append_nil _).symm)

theorem refl (w : World) : w.Tells [] w := of_journal_eq rfl

theorem trans (h : w.Tells ts w') (h' : w'.Tells us w'') : w.Tells (ts ++ us) w'' := by
  rw [Tells, show w''.infos = _ from h', show w'.infos = _ from h, List.append_assoc]

/-- What tells of nothing may come before. -/
theorem before (h : w.Tells [] w') (h' : w'.Tells ts w'') : w.Tells ts w'' := h.trans h'

/-- What tells of nothing may come after. -/
theorem after (h : w.Tells ts w') (h' : w'.Tells [] w'') : w.Tells ts w'' :=
  List.append_nil ts ▸ h.trans h'

/-- The texts are all that has come to those of before. -/
theorem drop_infos (h : w.Tells ts w') : w'.infos.drop w.infos.length = ts := by
  rw [show w'.infos = _ from h, List.drop_left]

/-- Of the records that are made, those of the level `info` count. -/
theorem tell (es : List Journal.Entry) (w : World) :
    w.Tells (es.filterMap Journal.Entry.info?) (Deed.on (World.tell es) w).2 :=
  of_journal _ rfl

theorem info (text : String) (w : World) : w.Tells [text] (Deed.on (World.info text) w).2 :=
  tell [.record .info text] w

/-- A warning is not a notice of something that has been done. -/
theorem warn (text : String) (w : World) : w.Tells [] (Deed.on (World.warn text) w).2 :=
  tell [.record .warning text] w

/-- A question tells of what its prompter says. -/
theorem ask {α : Type} {q : Prompter → Reply α} {w : World}
    (h : (q w.prompter).entries.filterMap Journal.Entry.info? = []) :
    w.Tells [] (Deed.on (World.ask q) w).2 := of_untold h rfl

theorem askName (offered : Option String) (w : World) :
    w.Tells [] (Deed.on (World.ask (·.askName offered)) w).2 :=
  ask (w.prompter.infos_askName offered)

theorem confirm (title message : String) (w : World) :
    w.Tells [] (Deed.on (World.ask (·.confirm title message)) w).2 :=
  ask (w.prompter.infos_confirm title message)

theorem notify (title message : String) (w : World) :
    w.Tells [] (Deed.on (World.ask (·.notify title message)) w).2 :=
  ask (w.prompter.infos_notify title message)

end Tells
end World

/-! ## Stores -/

namespace Store

variable {w w' : World}

theorem tells_reload (s : Store) (w : World) : w.Tells [] (Act.on s.reload w).2 := by
  have hnote : (missingNote s.path w).filterMap Journal.Entry.info? = [] := by
    unfold missingNote
    split <;> rfl
  rw [on_reload]
  exact .of_untold hnote rfl

/-- Saving a store tells of nothing: those who have it saved do. -/
theorem tells_save (s : Store) (w : World) : w.Tells [] (Act.on s.save w).2 := by
  obtain ⟨answer, d, folders, hf⟩ := on_makeFolderFor s.path w
  rw [on_save, hf]
  cases answer with
  | error e => exact .of_journal_eq rfl
  | ok =>
    dsimp only
    cases d.writeFile s.path (Utf8.encode s.catalogue.render) with
    | error e => exact .of_journal_eq rfl
    | ok d' =>
      exact .of_journal [.record .debug
        s!"Saved {s.catalogue.presets.length} preset(s) to {s.path}"] rfl

end Store
end Relabel
