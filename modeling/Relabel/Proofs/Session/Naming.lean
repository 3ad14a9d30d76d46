import Relabel.Session.Operations
import Relabel.Proofs.World.Dialogue

/-!
# Asking for a name

The user is asked for the name of a preset again and again, as long as the answers are blank.
Answers run out, so that there is an end to it.

* `Prompter.namesLeft_askName_lt`: a prompter that has given an answer has fewer left.
* `Session.refusals`: what has been put to the user when some answers have been blank.
* `Session.Named`: how the asking ends (`Session.named_askForName`).
-/

namespace Relabel

/-! ## Answers run out -/

namespace Prompter

variable {p : Prompter} {offered : Option String} {name : String}

theorem length_cutLine (input : List UInt8) :
    (cutLine input).1.length + (cutLine input).2.length = input.length := by
  induction input with
  | nil => rfl
  | cons b rest ih =>
    unfold cutLine
    split
    · exact Nat.add_comm ..
    · rw [List.length_cons, List.length_cons, ← ih, Nat.add_right_comm]

theorem namesLeft_readLine_lt {input : List UInt8} {atTerminal : Bool} {line : String}
    (h : (readLine input atTerminal).answer = some line) :
    (readLine input atTerminal).prompter.namesLeft < input.length := by
  have hlen := length_cutLine input
  unfold readLine at h ⊢
  dsimp only at h ⊢
  split at h
  · cases h
  next hne =>
  rw [if_neg hne]
  -- A line that has been read has at least the byte that ends it.
  have hpos : 0 < (cutLine input).1.length := by simpa [List.length_pos_iff] using hne
  split <;>
  · change (cutLine input).2.length < input.length
    omega

/-- A prompter that gives a name has one less to give. -/
theorem namesLeft_askName_lt (h : (p.askName offered).answer = some name) :
    (p.askName offered).prompter.namesLeft < p.namesLeft := by
  cases p with
  | scripted names answers asked =>
    cases names with
    | nil => cases h
    | cons first rest => exact Nat.lt_succ_self _
  | fixed only answer errors =>
    cases only with
    | none => cases h
    | some text => exact Nat.zero_lt_one
  | typist input atTerminal =>
    obtain ⟨line, hline, -⟩ := Option.map_eq_some_iff.mp h
    exact namesLeft_readLine_lt hline
  | named only others =>
    cases only with
    | none => cases h
    | some text => exact Nat.zero_lt_one

theorem namesLeft_notify (title message : String) (p : Prompter) :
    (p.notify title message).prompter.namesLeft = p.namesLeft := by
  cases p <;> rfl

end Prompter

namespace Session

variable {offered : Option String} {fuel : Nat} {w : World}

/-! ## Refusals -/

/-- The error of a blank name. -/
def blankName : Error := .validation "preset name" "must not be empty"

/-- What is put to a user whose answer is blank. -/
def refusal (offered : Option String) : List Asked :=
  [.name offered, .error "Invalid Preset Name" blankName.message]

/-- What is put to a user who gives so many blank answers. -/
def refusals (offered : Option String) (count : Nat) : List Asked :=
  (List.replicate count (refusal offered)).flatten

theorem refusals_succ (offered : Option String) (count : Nat) :
    refusals offered (count + 1) = refusal offered ++ refusals offered count := by
  simp [refusals, List.replicate_succ]

/-- The answer of a prompter after so many blank ones. -/
def nameAfter (p : Prompter) (offered : Option String) (count : Nat) : Option String :=
  ((p.after (refusals offered count)).askName offered).answer

theorem nameAfter_succ (p : Prompter) (offered : Option String) (count : Nat) :
    nameAfter p offered (count + 1) = nameAfter (p.after (refusal offered)) offered count := by
  rw [nameAfter, refusals_succ, Prompter.after_append]
  rfl

/-- The first `count` answers of a prompter are blank, and the next one is not blank or missing. -/
structure Named (p : Prompter) (offered : Option String) (count : Nat) (answer : Option String) :
    Prop where
  blank : ∀ i < count, (nameAfter p offered i).any Text.isBlankText = true
  answer_eq : nameAfter p offered count = answer
  accepted : answer.any Text.isBlankText = false

/-- A blank name is refused, and the user is asked again. -/
theorem Named.succ {p : Prompter} {text : String} {count : Nat} {answer : Option String}
    (hfirst : (p.askName offered).answer = some text) (hb : Text.isBlankText text = true)
    (h : Named (p.after (refusal offered)) offered count answer) :
    Named p offered (count + 1) answer where
  blank i hi := by
    cases i with
    | zero => exact (congrArg (Option.any Text.isBlankText) hfirst).trans hb
    | succ i => exact nameAfter_succ p offered i ▸ h.blank i (Nat.lt_of_succ_lt_succ hi)
  answer_eq := (nameAfter_succ p offered count).trans h.answer_eq
  accepted := h.accepted

/-- What a user comes to after some refusals is not come to after more. -/
theorem Named.not_lt {p : Prompter} {count count' : Nat} {answer answer' : Option String}
    (h : Named p offered count answer) (h' : Named p offered count' answer') :
    ¬ count < count' := by
  intro hlt
  have hb := h'.blank count hlt
  rw [h.answer_eq, h.accepted] at hb
  cases hb

/-- The answers decide how the asking ends. -/
theorem Named.unique {p : Prompter} {count count' : Nat} {answer answer' : Option String}
    (h : Named p offered count answer) (h' : Named p offered count' answer') :
    count = count' ∧ answer = answer' := by
  obtain rfl := Nat.le_antisymm (Nat.le_of_not_lt (h'.not_lt h)) (Nat.le_of_not_lt (h.not_lt h'))
  exact ⟨rfl, h.answer_eq.symm.trans h'.answer_eq⟩

/-! ## The loop -/

/-- The world after a blank answer. -/
def afterRefusal (offered : Option String) (w : World) : World :=
  (Deed.on (World.ask (·.notify "Invalid Preset Name" blankName.message))
    (Deed.on (World.ask (·.askName offered)) w).2).2

theorem hears_afterRefusal (offered : Option String) (w : World) :
    w.Hears (refusal offered) (afterRefusal offered w) :=
  (World.Hears.askName offered w).trans (World.Hears.notify ..)

theorem namesLeft_afterRefusal_lt {text : String}
    (h : (w.prompter.askName offered).answer = some text) :
    (afterRefusal offered w).prompter.namesLeft < w.prompter.namesLeft := by
  have hleft : (afterRefusal offered w).prompter.namesLeft =
      (w.prompter.askName offered).prompter.namesLeft :=
    Prompter.namesLeft_notify ..
  exact hleft ▸ Prompter.namesLeft_askName_lt h

theorem on_askForName_succ (offered : Option String) (fuel : Nat) (w : World) :
    Deed.on (askForName offered (fuel + 1)) w =
      match (w.prompter.askName offered).answer with
      | none => (none, (Deed.on (World.ask (·.askName offered)) w).2)
      | some name =>
        if Text.isBlankText name then Deed.on (askForName offered fuel) (afterRefusal offered w)
        else (some name, (Deed.on (World.ask (·.askName offered)) w).2) := by
  rw [askForName, Deed.on_bind, World.on_ask]
  cases (w.prompter.askName offered).answer with
  | none => rfl
  | some name =>
    dsimp only
    rw [Deed.on_ite]
    rfl

/-- The asking ends with the first answer that is not blank, or where there is none. It is never cut
short. -/
theorem named_askForName (offered : Option String) (h : w.prompter.namesLeft < fuel) :
    ∃ count ≤ w.prompter.namesLeft,
      Named w.prompter offered count (Deed.on (askForName offered fuel) w).1 ∧
        w.Hears (refusals offered count ++ [.name offered])
          (Deed.on (askForName offered fuel) w).2 := by
  induction fuel generalizing w with
  | zero => cases h
  | succ fuel ih =>
    have hears := World.Hears.askName offered w
    rw [on_askForName_succ]
    cases ha : (w.prompter.askName offered).answer with
    | none => exact ⟨0, Nat.zero_le _, ⟨nofun, ha, rfl⟩, hears⟩
    | some text =>
      dsimp only
      cases hb : Text.isBlankText text with
      | true =>
        have hlt := namesLeft_afterRefusal_lt ha
        obtain ⟨count, hcount, hnamed, hrest⟩ :=
          ih (Nat.lt_of_lt_of_le hlt (Nat.le_of_lt_succ h))
        refine ⟨count + 1, Nat.lt_of_le_of_lt hcount hlt, .succ ha hb hnamed, ?_⟩
        rw [refusals_succ, List.append_assoc]
        exact (hears_afterRefusal offered w).trans hrest
      | false =>
        exact ⟨0, Nat.zero_le _, ⟨nofun, ha, hb⟩, hears⟩

end Session
end Relabel
