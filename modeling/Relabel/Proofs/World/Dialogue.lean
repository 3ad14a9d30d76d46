import Relabel.Proofs.World.Execution

/-!
# What a user is asked and told

Requests go to a prompter one after the other. Some prompters write errors down and others put them
into the journal, so that what a user has been told of is gathered from both.

* `Prompter.after`: a prompter that has been put some requests.
* `World.errors`: the errors that the user has been told of.
* `World.Hears`: the requests between two worlds.
* `World.Asks`: these requests, and those to the disk.
-/

namespace Relabel

/-- The text of an error that the user is told of. -/
def Asked.error? : Asked → Option String
  | error title message => some s!"{title}: {message}"
  | name _ | confirm .. => none

def Journal.Entry.error? : Journal.Entry → Option String
  | record .error text => some text
  | _ => none

/-! ## Prompters -/

namespace Prompter

/-- The prompter after a request. -/
def put (p : Prompter) : Asked → Prompter
  | .name offered => (p.askName offered).prompter
  | .confirm title message => (p.confirm title message).prompter
  | .error title message => (p.notify title message).prompter

/-- The prompter after some requests. -/
def after (p : Prompter) (requests : List Asked) : Prompter := requests.foldl put p

/-- Answering questions in two goes is the same as answering them in one. -/
theorem after_append (p : Prompter) (qs rs : List Asked) :
    p.after (qs ++ rs) = (p.after qs).after rs :=
  List.foldl_append

/-- The errors that a prompter has written down. -/
def errors : Prompter → List String
  | scripted _ _ asked => asked.filterMap Asked.error?
  | fixed .. | typist .. => []
  | named _ others => others.errors

/-- Reading a line notifies nobody of an error. -/
theorem errors_readLine (input : List UInt8) (atTerminal : Bool) :
    (readLine input atTerminal).entries.filterMap Journal.Entry.error? = [] ∧
      (readLine input atTerminal).prompter.errors = [] := by
  unfold readLine
  dsimp only
  split
  · exact ⟨rfl, rfl⟩
  · split <;> exact ⟨rfl, rfl⟩

theorem errors_askName (offered : Option String) (p : Prompter) :
    (p.askName offered).entries.filterMap Journal.Entry.error? = [] ∧
      (p.askName offered).prompter.errors = p.errors := by
  cases p with
  | scripted names answers asked => exact ⟨rfl, by simp [askName, errors, Asked.error?]⟩
  | typist input atTerminal => exact errors_readLine input atTerminal
  | _ => exact ⟨rfl, rfl⟩

theorem errors_confirm (title message : String) (p : Prompter) :
    (p.confirm title message).entries.filterMap Journal.Entry.error? = [] ∧
      (p.confirm title message).prompter.errors = p.errors := by
  induction p with
  | scripted names answers asked => exact ⟨rfl, by simp [confirm, errors, Asked.error?]⟩
  | fixed => exact ⟨rfl, rfl⟩
  | typist input atTerminal =>
    cases atTerminal with
    | false => exact ⟨rfl, rfl⟩
    | true => exact errors_readLine input true
  | named name others ih => exact ih

/-- An error is written down or put into the journal, and never both. -/
theorem errors_notify (title message : String) (p : Prompter) (told : List String) :
    told ++ (p.notify title message).entries.filterMap Journal.Entry.error? ++
        (p.notify title message).prompter.errors =
      told ++ p.errors ++ [s!"{title}: {message}"] := by
  induction p with
  | scripted names answers asked => simp [notify, errors, Asked.error?]
  | fixed => simp [notify, errors, Journal.Entry.error?]
  | typist => simp [notify, errors, Journal.Entry.error?]
  | named name others ih => exact ih

end Prompter

/-! ## Worlds -/

namespace World

/-- The errors that the user has been told of. -/
def errors (w : World) : List String :=
  w.journal.filterMap Journal.Entry.error? ++ w.prompter.errors

/-- Between two worlds the prompter has been put these requests, and the user has been told of no
other error. -/
structure Hears (w : World) (requests : List Asked) (w' : World) : Prop where
  prompter : w'.prompter = w.prompter.after requests
  errors : w'.errors = w.errors ++ requests.filterMap Asked.error?

namespace Hears

variable {w w' w'' : World} {qs rs : List Asked} {es : List Journal.Entry}

theorem trans (h : w.Hears qs w') (h' : w'.Hears rs w'') : w.Hears (qs ++ rs) w'' where
  prompter := by rw [h'.prompter, h.prompter, Prompter.after_append]
  errors := by rw [h'.errors, h.errors, List.filterMap_append, List.append_assoc]

/-- Nothing has been asked, and what has been said is no error. -/
theorem of_journal (hp : w'.prompter = w.prompter) (hj : w'.journal = w.journal ++ es)
    (he : es.filterMap Journal.Entry.error? = []) : w.Hears [] w' where
  prompter := hp
  errors := by simp [World.errors, hp, hj, he]

theorem refl (w : World) : w.Hears [] w := of_journal rfl (List.append_nil _).symm rfl

theorem tell (w : World) (he : es.filterMap Journal.Entry.error? = []) :
    w.Hears [] (Deed.on (World.tell es) w).2 :=
  of_journal rfl rfl he

/-- What the user does not hear of may follow a dialogue. -/
theorem silence (h : w.Hears qs w') (h' : w'.Hears [] w'') : w.Hears qs w'' :=
  List.append_nil qs ▸ h.trans h'

theorem askName (offered : Option String) (w : World) :
    w.Hears [.name offered] (Deed.on (World.ask (·.askName offered)) w).2 where
  prompter := rfl
  errors := by
    obtain ⟨he, hp⟩ := w.prompter.errors_askName offered
    simp [World.errors, he, hp, Asked.error?]

theorem confirm (title message : String) (w : World) :
    w.Hears [.confirm title message] (Deed.on (World.ask (·.confirm title message)) w).2 where
  prompter := rfl
  errors := by
    obtain ⟨he, hp⟩ := w.prompter.errors_confirm title message
    simp [World.errors, he, hp, Asked.error?]

theorem notify (title message : String) (w : World) :
    w.Hears [.error title message] (Deed.on (World.ask (·.notify title message)) w).2 where
  prompter := rfl
  errors := by
    rw [World.errors, World.on_ask, List.filterMap_append]
    exact w.prompter.errors_notify title message _

end Hears

/-- Between two worlds these changes have been made to the disk, and the prompter has been put these
requests. -/
structure Asks (w : World) (cs : List Change) (qs : List Asked) (w' : World) : Prop where
  changes : w'.changes = w.changes ++ cs
  prompter : w'.prompter = w.prompter.after qs

namespace Asks

variable {w w' w'' : World} {cs ds : List Change} {qs rs : List Asked}

/-- Nothing has been done to the disk, and nothing has been asked. -/
theorem of_eq (hc : w'.changes = w.changes) (hp : w'.prompter = w.prompter) : w.Asks [] [] w' where
  changes := hc.trans (List.append_nil _).symm
  prompter := hp

theorem refl (w : World) : w.Asks [] [] w := of_eq rfl rfl

theorem trans (h : w.Asks cs qs w') (h' : w'.Asks ds rs w'') :
    w.Asks (cs ++ ds) (qs ++ rs) w'' where
  changes := by rw [h'.changes, h.changes, List.append_assoc]
  prompter := by rw [h'.prompter, h.prompter, Prompter.after_append]

end Asks
end World
end Relabel
