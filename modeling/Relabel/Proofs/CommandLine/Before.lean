import Relabel.Proofs.CommandLine.Spelling

/-!
# What has been given before

Reading adds to what a part has been given and hardly looks at it: one switch more does not change
what else is read, unless the same switch is given again and may not be.

* `Part.behind`: the part with a switch given before all others.
* `Part.Reads`: operations that do the same to such a part, closed under doing one after the other.
* `Part.reads_take`, `Part.reads_finish`: reading is of this kind.
* `Part.readOne`: reads all words as words of one command.
-/

namespace Relabel.CommandLine

namespace Part

variable {p q : Part} {c : Command} {s : Switch} {g : Given}
  {f f' : Part → Except Refusal Part} {words : List String}

/-! ## One more switch before -/

/-- The part with a switch given before all others. -/
def behind (g : Given) (p : Part) : Part := { p with given := g :: p.given }

theorem holds_behind (g : Given) (p : Part) (s : Switch) :
    (p.behind g).holds s = (g.1 == s || p.holds s) :=
  rfl

/-- The operation does the same to a part that has been given a switch before, unless the same
switch is given again and stops it. -/
structure Reads (g : Given) (f : Part → Except Refusal Part) : Prop where
  command {p q : Part} : f p = .ok q → q.command = p.command
  holds {p q : Part} {s : Switch} : f p = .ok q → p.holds s = true → q.holds s = true
  behind (p : Part) : f (p.behind g) = (f p).map (behind g) ∨
    (∃ e, f (p.behind g) = .error e) ∧ ∀ q, f p = .ok q → q.holds g.1 = true

namespace Reads

theorem error (e : Refusal) : Reads g fun _ => .error e where
  command := nofun
  holds := nofun
  behind _ := .inl rfl

theorem pure (m : Part → Part) (hc : ∀ p, (m p).command = p.command)
    (hg : ∀ p, (m p).given = p.given) (hb : ∀ p, m (p.behind g) = (m p).behind g) :
    Reads g fun p => .ok (m p) where
  command h := by
    cases h
    exact hc _
  holds h hs := by
    cases h
    rwa [Part.holds, hg]
  behind p := .inl (congrArg _ (hb p))

/-- Doing one thing after the other is of this kind if both are. -/
theorem bind (h : Reads g f) (h' : Reads g f') : Reads g fun p => f p >>= f' where
  command hq := by
    obtain ⟨r, hr, hq⟩ := bind_eq_ok hq
    exact (h'.command hq).trans (h.command hr)
  holds hq hs := by
    obtain ⟨r, hr, hq⟩ := bind_eq_ok hq
    exact h'.holds hq (h.holds hr hs)
  behind p := by
    rcases h.behind p with hb | ⟨⟨e, he⟩, hall⟩
    · rw [hb]
      cases f p with
      | error e => exact .inl rfl
      | ok r => exact h'.behind r
    · refine .inr ⟨⟨e, by rw [he]; rfl⟩, fun q hq => ?_⟩
      obtain ⟨r, hr, hq⟩ := bind_eq_ok hq
      exact h'.holds hq (hall r hr)

/-- Which way an operation takes may depend on anything but on what has been given. -/
theorem of_forall (h : ∀ p, ∃ f', Reads g f' ∧ f p = f' p ∧ f (p.behind g) = f' (p.behind g)) :
    Reads g f where
  command {p q} hq := by
    obtain ⟨f', hf, hp, -⟩ := h p
    exact hf.command (hp ▸ hq)
  holds {p q s} hq hs := by
    obtain ⟨f', hf, hp, -⟩ := h p
    exact hf.holds (hp ▸ hq) hs
  behind p := by
    obtain ⟨f', hf, hp, hb⟩ := h p
    rw [hp, hb]
    exact hf.behind p

end Reads

/-! ## Reading -/

/-- Only a switch that may not be given twice makes a difference. -/
theorem reads_give (g : Given) (s : Switch) (text : Option String) :
    Reads g (·.give s text) where
  command h := by rw [give_eq_ok h]
  holds h hs := by
    rw [give_eq_ok h, Part.holds, List.any_append]
    exact Bool.or_eq_true_iff.mpr (.inl hs)
  behind p := by
    by_cases hagain : g.1 = s ∧ s.isRepeatable = false
    · obtain ⟨rfl, hr⟩ := hagain
      refine .inr ⟨⟨.argumentConflict, ?_⟩, fun q hq => ?_⟩
      · unfold give
        rw [if_pos (by simp [holds_behind, hr])]
      · rw [give_eq_ok hq, Part.holds, List.any_append]
        simp
    · left
      have hheld : ((p.behind g).holds s && !s.isRepeatable) = (p.holds s && !s.isRepeatable) := by
        rw [holds_behind]
        cases hr : s.isRepeatable with
        | true => simp
        | false =>
          have hne : (g.1 == s) = false := beq_eq_false_iff_ne.mpr fun h => hagain ⟨h, hr⟩
          rw [hne, Bool.false_or]
      unfold give
      rw [hheld]
      split
      · rfl
      · split <;> rfl

theorem reads_self (g : Given) : Reads g fun p => .ok p :=
  .pure (·) (fun _ => rfl) (fun _ => rfl) fun _ => rfl

theorem reads_pending (g : Given) (pending : Pending) :
    Reads g fun p => .ok { p with pending } :=
  .pure _ (fun _ => rfl) (fun _ => rfl) fun _ => rfl

theorem reads_addOperands (g : Given) (words : List String) : Reads g (·.addOperands words) := by
  refine .of_forall fun p => ?_
  have hcommand : (p.behind g).command = p.command := rfl
  simp only [addOperands, hcommand]
  split
  · exact ⟨_, .error _, rfl, rfl⟩
  · exact ⟨fun p => .ok { p with operands := p.operands ++ words, pending := .nothing },
      .pure _ (fun _ => rfl) (fun _ => rfl) fun _ => rfl, rfl, rfl⟩

/-- A value that is settled is given behind everything else. -/
theorem reads_settle (g : Given) : Reads g settle := by
  refine .of_forall fun p => ?_
  have hpending : (p.behind g).pending = p.pending := rfl
  simp only [settle, hpending]
  split
  · exact ⟨_, reads_self g, rfl, rfl⟩
  · exact ⟨_, .error _, rfl, rfl⟩
  · exact ⟨_, reads_give g _ _, rfl, rfl⟩
  · exact ⟨_, reads_addOperands g _, rfl, rfl⟩

theorem reads_takeFlag (g : Given) (s : Switch) : Reads g (·.takeFlag s) := by
  refine (reads_settle g).bind ?_
  cases s with
  | help => exact .error .help
  | version => exact .error .version
  | _ => exact reads_give g _ none

/-- A switch that is begun waits for its value whatever has been given before. -/
theorem reads_takeValued (g : Given) (s : Switch) (text : Option String) :
    Reads g (·.takeValued s text) := by
  refine (reads_settle g).bind ?_
  cases text with
  | none => exact reads_pending g _
  | some text => exact reads_give g s (some text)

theorem reads_takeName (g : Given) (name : List Char) : Reads g (·.takeName name) := by
  refine .of_forall fun p => ?_
  simp only [takeName, behind]
  split
  · exact ⟨_, .error _, rfl, rfl⟩
  split
  · exact ⟨_, reads_takeValued g _ _, rfl, rfl⟩
  split
  · exact ⟨_, .error _, rfl, rfl⟩
  · exact ⟨_, reads_takeFlag g _, rfl, rfl⟩

theorem reads_takeLetters (g : Given) (ls : List Char) : Reads g (·.takeLetters ls) := by
  induction ls with
  | nil => exact reads_self g
  | cons l ls ih =>
    refine .of_forall fun p => ?_
    simp only [takeLetters_cons, behind]
    split
    · exact ⟨_, .error _, rfl, rfl⟩
    split
    · exact ⟨_, reads_takeValued g _ _, rfl, rfl⟩
    · exact ⟨_, (reads_takeFlag g _).bind ih, rfl, rfl⟩

/-- An operand is no switch. -/
theorem reads_takeOperand (g : Given) (word : String) : Reads g (·.takeOperand word) := by
  refine .of_forall fun p => ?_
  have hfull : (p.behind g).isFull = p.isFull := rfl
  have hrefusal : (p.behind g).refusal word = p.refusal word := rfl
  have hpending : (p.behind g).pending = p.pending := rfl
  simp only [takeOperand, hfull, hrefusal, hpending]
  split
  · exact ⟨_, .error _, rfl, rfl⟩
  split
  · exact ⟨_, reads_pending g _, rfl, rfl⟩
  · exact ⟨_, (reads_settle g).bind (reads_pending g _), rfl, rfl⟩

theorem reads_take (g : Given) (word : String) : Reads g (·.take word) := by
  refine .of_forall fun p => ?_
  have hescaped : (p.behind g).escaped = p.escaped := rfl
  have hpending : (p.behind g).pending = p.pending := rfl
  simp only [take, hescaped, hpending]
  split
  · exact ⟨_, reads_takeOperand g word, rfl, rfl⟩
  split
  · exact ⟨fun p => .ok { p with escaped := true },
      .pure _ (fun _ => rfl) (fun _ => rfl) fun _ => rfl, rfl, rfl⟩
  · exact ⟨_, reads_takeName g _, rfl, rfl⟩
  · exact ⟨_, reads_takeLetters g _, rfl, rfl⟩
  split
  · exact ⟨_, reads_pending g _, rfl, rfl⟩
  · exact ⟨_, reads_takeOperand g word, rfl, rfl⟩

/-- The end of a part looks for what is missing. -/
theorem reads_finish (g : Given) (goesOn : Bool) : Reads g (·.finish goesOn) := by
  refine (reads_settle g).bind (.of_forall fun p => ?_)
  have hcommand : (p.behind g).command = p.command := rfl
  have hoperands : (p.behind g).operands = p.operands := rfl
  simp only [hcommand, hoperands]
  split
  · exact ⟨_, .error _, rfl, rfl⟩
  split
  · exact ⟨_, .error _, rfl, rfl⟩
  · exact ⟨_, reads_self g, rfl, rfl⟩

/-! ## Commands with nothing below them -/

/-- Reads all words as words of one command. -/
def readOne (words : List String) (p : Part) : Except Refusal Part :=
  match words with
  | [] => p.finish false
  | word :: words => p.take word >>= readOne words

/-- One word after the other is read in the same way. -/
theorem reads_readOne (g : Given) (words : List String) : Reads g (readOne words) := by
  induction words with
  | nil => exact reads_finish g false
  | cons word words ih => exact (reads_take g word).bind ih

theorem readAll_of_next_eq_nil (h : p.command.next = []) (words : List String) :
    p.readAll words = p.readOne words >>= fun q => .ok [q] := by
  induction words generalizing p with
  | nil => rfl
  | cons word words ih =>
    have hnone : p.command? word = none := by
      unfold command?
      rw [h]
      split <;> rfl
    rw [readAll_cons, hnone]
    dsimp only
    rw [readOne]
    cases hq : p.take word with
    | error e => rfl
    | ok q =>
      have hcommand : q.command = p.command := (reads_take (.help, none) word).command hq
      exact ih (hcommand ▸ h)

end Part
end Relabel.CommandLine
