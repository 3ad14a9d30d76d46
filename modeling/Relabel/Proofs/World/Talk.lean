import Relabel.Session.Operations
import Relabel.Proofs.World.Execution

/-!
# Talk

Most of what a program does in the world is to tell its user something and to ask questions. Neither
touches a file, and neither asks a host to show items anew.

* `World.requests`: how often a host has been asked to show items anew.
* `World.Talk`: between two worlds there has been nothing but talk.
* `World.Talk.journal`, `World.Talk.askName`, `World.Talk.confirm`, `World.Talk.notify`: its parts.
-/

namespace Relabel

/-- What is said where there is no host to show items anew. -/
def refreshNote : Journal.Entry := .record .debug "Refresh requested"

section

variable {level : Level} {text : String}

/-- Only records of the level `debug` can be mistaken for a request to show items anew. -/
theorem refreshNote_notMem_of_level (h : level ≠ .debug) :
    refreshNote ∉ [Journal.Entry.record level text] :=
  fun hm => h (Journal.Entry.record.inj (List.mem_singleton.mp hm)).1.symm

/-- A record that begins otherwise is no such request. -/
theorem refreshNote_notMem_of_head (h : text.toList.head? ≠ some 'R') :
    refreshNote ∉ [Journal.Entry.record level text] := by
  intro hm
  rw [← (Journal.Entry.record.inj (List.mem_singleton.mp hm)).2] at h
  exact h rfl

/-- A record that ends otherwise is no such request. -/
theorem refreshNote_notMem_of_getLast (h : text.toList.getLast? ≠ some 'd') :
    refreshNote ∉ [Journal.Entry.record level text] := by
  intro hm
  rw [← (Journal.Entry.record.inj (List.mem_singleton.mp hm)).2] at h
  exact h rfl

end

/-! ## Prompters -/

namespace Prompter

theorem refreshNote_notMem_readLine (input : List UInt8) (atTerminal : Bool) :
    refreshNote ∉ (readLine input atTerminal).entries := by
  unfold readLine
  dsimp only
  split
  · exact List.not_mem_nil
  · split
    · exact List.not_mem_nil
    · exact refreshNote_notMem_of_head (by decide)

theorem refreshNote_notMem_askName (offered : Option String) (p : Prompter) :
    refreshNote ∉ (p.askName offered).entries := by
  cases p with
  | typist input atTerminal =>
    intro h
    rcases List.mem_cons.mp h with h | h
    · cases h
    · exact refreshNote_notMem_readLine _ _ h
  | _ => exact List.not_mem_nil

theorem refreshNote_notMem_confirm (title message : String) (p : Prompter) :
    refreshNote ∉ (p.confirm title message).entries := by
  induction p with
  | scripted => exact List.not_mem_nil
  | fixed name answer errors =>
    refine refreshNote_notMem_of_getLast ?_
    cases answer <;> simp [toString]
  | typist input atTerminal =>
    cases atTerminal with
    | false =>
      refine refreshNote_notMem_of_getLast ?_
      simp [toString]
    | true =>
      intro h
      rcases List.mem_cons.mp h with h | h
      · cases h
      rcases List.mem_cons.mp h with h | h
      · cases h
      · exact refreshNote_notMem_readLine _ _ h
  | named name others ih => exact ih

/-- A notice of an error makes no request to show items anew. -/
theorem refreshNote_notMem_notify (title message : String) (p : Prompter) :
    refreshNote ∉ (p.notify title message).entries := by
  have told : refreshNote ∉ [Journal.Entry.record .error s!"{title}: {message}"] :=
    refreshNote_notMem_of_level (by decide)
  induction p with
  | scripted => exact List.not_mem_nil
  | fixed => exact told
  | typist => exact told
  | named name others ih => exact ih

end Prompter

/-! ## Talk -/

namespace World

/-- How often a host has been asked to show items anew. -/
def requests (w : World) : Nat := w.refreshes + w.journal.count refreshNote

/-- Between two worlds there has been nothing but talk. -/
structure Talk (w w' : World) : Prop where
  disk : w'.disk = w.disk
  changes : w'.changes = w.changes
  requests : w'.requests = w.requests

namespace Talk

variable {w w' w'' : World} {es : List Journal.Entry}

theorem refl (w : World) : w.Talk w := ⟨rfl, rfl, rfl⟩

theorem trans (h : w.Talk w') (h' : w'.Talk w'') : w.Talk w'' :=
  ⟨h'.disk.trans h.disk, h'.changes.trans h.changes, h'.requests.trans h.requests⟩

/-- What is said is talk unless it is the request to show items anew. -/
theorem journal (w : World) (h : refreshNote ∉ es) : w.Talk { w with journal := w.journal ++ es } where
  disk := rfl
  changes := rfl
  requests := by simp [World.requests, List.count_append, List.count_eq_zero.mpr h]

/-- A question is talk if its prompter makes no request to show items anew. -/
theorem ask {α : Type} (q : Prompter → Reply α) (w : World)
    (h : refreshNote ∉ (q w.prompter).entries) : w.Talk (Deed.on (World.ask q) w).2 where
  disk := rfl
  changes := rfl
  requests := (journal w h).requests

theorem error (text : String) (w : World) : w.Talk (Deed.on (World.record .error text) w).2 :=
  journal w (refreshNote_notMem_of_level (by decide))

theorem info (text : String) (w : World) : w.Talk (Deed.on (World.info text) w).2 :=
  journal w (refreshNote_notMem_of_level (by decide))

theorem warn (text : String) (w : World) : w.Talk (Deed.on (World.warn text) w).2 :=
  journal w (refreshNote_notMem_of_level (by decide))

theorem askName (offered : Option String) (w : World) :
    w.Talk (Deed.on (World.ask (·.askName offered)) w).2 :=
  ask _ w (w.prompter.refreshNote_notMem_askName offered)

theorem confirm (title message : String) (w : World) :
    w.Talk (Deed.on (World.ask (·.confirm title message)) w).2 :=
  ask _ w (w.prompter.refreshNote_notMem_confirm title message)

theorem notify (title message : String) (w : World) :
    w.Talk (Deed.on (World.ask (·.notify title message)) w).2 :=
  ask _ w (w.prompter.refreshNote_notMem_notify title message)

end Talk
end World

namespace Session

/-- Each host is asked once, whether it keeps count or not. -/
theorem requests_refresh (host : Host) (w : World) :
    (Deed.on host.refresh w).2.requests = w.requests + 1 := by
  cases host with
  | silent =>
    have h : ([.record .debug "Refresh requested"] : List Journal.Entry).count refreshNote = 1 := by
      decide
    change w.refreshes + List.count refreshNote (w.journal ++ _) = _
    rw [List.count_append, h, World.requests, Nat.add_assoc]
  | counting =>
    change w.refreshes + 1 + w.journal.count refreshNote = _
    rw [World.requests, Nat.add_right_comm]

/-! ## Asking for a name -/

/-- Asking for a name is talk, however often the user is asked. -/
theorem talk_askForName (offered : Option String) (fuel : Nat) (w : World) :
    w.Talk (Deed.on (askForName offered fuel) w).2 := by
  induction fuel generalizing w with
  | zero => exact .refl w
  | succ fuel ih =>
    unfold askForName
    rw [Deed.on_bind]
    have ha := World.Talk.askName offered w
    generalize Deed.on (World.ask (·.askName offered)) w = r at ha
    obtain ⟨_ | name, w'⟩ := r
    · exact ha
    dsimp only
    rw [Deed.on_ite]
    split
    · exact ha.trans ((World.Talk.notify ..).trans (ih _))
    · exact ha

end Session
end Relabel
