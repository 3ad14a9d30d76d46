import Mathlib.Data.List.Basic
import Relabel.CommandLine.Basic

/-!
# Reading a line word by word

What a word does depends on what has been begun before it. A value that has been read is the one
thing that may just as well be settled at once: every word settles it but the two hyphens, which
leave it to the words behind them.

* `Part.word_cases`: the sorts of words, with what each of them does (`Part.take_name`,
  `Part.take_letters`, `Part.take_plain`).
* `Part.readAll_settle`: a value that has been read may be settled before the next word.
-/

namespace Relabel.CommandLine

variable {α β : Type}

theorem toOption_bind (x : Except Refusal α) (f : α → Except Refusal β) :
    (x >>= f).toOption = x.toOption.bind fun a => (f a).toOption := by
  cases x <;> rfl

theorem bind_eq_ok {x : Except Refusal α} {f : α → Except Refusal β} {b : β}
    (h : x >>= f = .ok b) : ∃ a, x = .ok a ∧ f a = .ok b := by
  cases x with
  | error e => cases h
  | ok a => exact ⟨a, rfl, h⟩

namespace Command

/-- No command begins with a hyphen. -/
theorem lookup_next_hyphen (c : Command) {word : String} (h : word.toList.head? = some '-') :
    c.next.lookup word = none := by
  have hnext : ∀ w ∈ c.next, w.1.toList.head? ≠ some '-' := by cases c <;> decide
  refine List.lookup_eq_none_iff.mpr fun w hw => bne_iff_ne.mpr fun heq => hnext w hw ?_
  rw [← heq, h]

end Command

namespace Part

variable {p q : Part} {s : Switch} {words : List String}

/-! ## Settling -/

/-- A switch that has been accepted stands behind those before it, and no other one is waited for.
-/
theorem give_eq_ok {text : Option String} (h : p.give s text = .ok q) :
    q = { p with given := p.given ++ [(s, text)], pending := .nothing } := by
  unfold give at h
  split at h
  · cases h
  split at h
  · cases h
  · cases h
    rfl

/-- Once the part is settled nothing is waited for. -/
theorem pending_of_settle (h : p.settle = .ok q) : q.pending = .nothing := by
  unfold settle at h
  split at h
  · next hp =>
    cases h
    exact hp
  · cases h
  · rw [give_eq_ok h]
  · unfold addOperands at h
    split at h <;> cases h
    rfl

theorem settle_of_nothing (h : p.pending = .nothing) : p.settle = .ok p := by rw [settle, h]

theorem settle_of_value {text : String} (h : p.pending = .value s (some text)) :
    p.settle = p.give s (some text) := by
  rw [settle, h]

/-- What begins with settling may be settled before. -/
theorem settle_bind_settle (p : Part) (f : Part → Except Refusal α) :
    (p.settle >>= fun q => q.settle >>= f) = p.settle >>= f := by
  cases h : p.settle with
  | error e => rfl
  | ok q => exact congrArg (· >>= f) (settle_of_nothing (pending_of_settle h))

/-! ## Words -/

/-- A word that can be a value or an operand: if it begins with a hyphen it is only that. -/
def IsPlain (word : String) : Prop := word.toList = ['-'] ∨ word.toList.head? ≠ some '-'

theorem word_cases (word : String) : word.toList = ['-', '-'] ∨
    (∃ c cs, word.toList = '-' :: '-' :: c :: cs) ∨
    (∃ c cs, word.toList = '-' :: c :: cs ∧ c ≠ '-') ∨ IsPlain word := by
  unfold IsPlain
  match h : word.toList with
  | [] => exact .inr (.inr (.inr (.inr nofun)))
  | [c] => by_cases hc : c = '-' <;> simp [hc]
  | c :: d :: cs =>
    by_cases hc : c = '-'
    · by_cases hd : d = '-'
      · cases cs <;> simp [hc, hd]
      · exact .inr (.inr (.inl ⟨d, cs, by rw [hc], hd⟩))
    · exact .inr (.inr (.inr (.inr (by simpa using hc))))

section

variable {word : String} {d : Char} {cs : List Char}

/-- Behind two hyphens every word is an operand. -/
theorem take_of_escaped (h : p.escaped = true) (word : String) :
    p.take word = p.takeOperand word := by
  rw [take, h, if_pos rfl]

variable (h : p.escaped = false)
include h

theorem take_hyphens (hw : word.toList = ['-', '-']) :
    p.take word = .ok { p with escaped := true } := by
  rw [take, h, hw]
  rfl

theorem take_name (hw : word.toList = '-' :: '-' :: d :: cs) :
    p.take word = p.takeName (d :: cs) := by
  rw [take, h, hw]
  rfl

theorem take_letters (hw : word.toList = '-' :: d :: cs) (hd : d ≠ '-') :
    p.take word = p.takeLetters (d :: cs) := by
  rw [take, h, hw, if_neg nofun]
  split
  · next heq => exact absurd (List.cons.inj (List.cons.inj heq).2).1 hd
  · next heq => exact absurd (List.cons.inj (List.cons.inj heq).2).1 hd
  · next heq =>
    cases heq
    rfl
  · next hno => exact absurd rfl (hno d cs)

theorem take_plain (hw : IsPlain word) : p.take word = match p.pending with
    | .value s none => .ok { p with pending := .value s (some word) }
    | _ => p.takeOperand word := by
  rw [take, h, if_neg nofun]
  rcases hw with hw | hw
  · rw [hw]
    rfl
  · split
    · next heq => exact absurd (heq ▸ rfl) hw
    · next heq => exact absurd (heq ▸ rfl) hw
    · next heq => exact absurd (heq ▸ rfl) hw
    · rfl

end

/-! ## A value that has been read -/

section

variable {text : String} (hp : p.pending = .value s (some text))
include hp

theorem settle_cases : (∃ e, p.settle = .error e) ∨ p.settle =
    .ok { p with given := p.given ++ [(s, some text)], pending := .nothing } := by
  rw [settle_of_value hp]
  cases h : p.give s (some text) with
  | error e => exact .inl ⟨e, rfl⟩
  | ok q => exact .inr (congrArg _ (give_eq_ok h))

/-- An operand settles a value that has been read. -/
theorem takeOperand_settle (word : String) :
    (p.takeOperand word).toOption = (p.settle >>= (·.takeOperand word)).toOption := by
  have hstart : p.takeOperand word = if p.isFull then .error (p.refusal word) else
      p.settle >>= fun q => .ok { q with pending := .operands [word] } := by
    unfold takeOperand
    rw [hp]
  rw [hstart]
  rcases settle_cases hp with ⟨e, he⟩ | hq
  · rw [he]
    split <;> rfl
  · have hfull : p.isFull = ({ p with
        given := p.given ++ [(s, some text)]
        pending := .nothing } : Part).isFull := by
      unfold isFull
      rw [hp]
    rw [hq, hfull]
    rfl

theorem takeLetters_settle (c : Char) (cs : List Char) : (p.takeLetters (c :: cs)).toOption =
    (p.settle >>= (·.takeLetters (c :: cs))).toOption := by
  unfold takeLetters
  rcases settle_cases hp with ⟨e, he⟩ | hq
  · rw [he]
    split
    · rfl
    split
    · unfold takeValued
      rw [he]
      rfl
    · unfold takeFlag
      rw [he]
      rfl
  · rw [hq]
    dsimp only [bind, Except.bind]
    split
    · rfl
    split
    · unfold takeValued
      rw [hq]
      rfl
    · unfold takeFlag
      rw [hq]
      rfl

theorem takeName_settle (name : List Char) :
    (p.takeName name).toOption = (p.settle >>= (·.takeName name)).toOption := by
  unfold takeName
  rcases settle_cases hp with ⟨e, he⟩ | hq
  · rw [he]
    dsimp only
    split
    · rfl
    split
    · unfold takeValued
      rw [he]
      rfl
    split
    · rfl
    · unfold takeFlag
      rw [he]
      rfl
  · rw [hq]
    dsimp only [bind, Except.bind]
    split
    · rfl
    split
    · unfold takeValued
      rw [hq]
      rfl
    split
    · rfl
    · unfold takeFlag
      rw [hq]
      rfl

/-- Only two hyphens do not settle what has been begun. -/
theorem take_settle {word : String} (h : p.escaped = true ∨ word.toList ≠ ['-', '-']) :
    (p.take word).toOption = (p.settle >>= (·.take word)).toOption := by
  have hquiet : ∀ q, p.settle = .ok q → q.escaped = p.escaped ∧ q.pending = .nothing := by
    intro q hq
    refine ⟨?_, pending_of_settle hq⟩
    rw [settle_of_value hp] at hq
    rw [give_eq_ok hq]
  have hcongr (f : Part → Except Refusal Part) (hf : ∀ q, p.settle = .ok q → q.take word = f q) :
      p.settle >>= (·.take word) = p.settle >>= f := by
    cases hs : p.settle with
    | error e => rfl
    | ok q => exact hf q hs
  cases hesc : p.escaped with
  | true =>
    rw [take_of_escaped hesc, takeOperand_settle hp, hcongr (·.takeOperand word)]
    exact fun q hq => take_of_escaped ((hquiet q hq).1.trans hesc) word
  | false =>
    rcases word_cases word with hw | ⟨c, cs, hw⟩ | ⟨c, cs, hw, hc⟩ | hw
    · simp [hesc, hw] at h
    · rw [take_name hesc hw, takeName_settle hp, hcongr (·.takeName (c :: cs))]
      exact fun q hq => take_name ((hquiet q hq).1.trans hesc) hw
    · rw [take_letters hesc hw hc, takeLetters_settle hp, hcongr (·.takeLetters (c :: cs))]
      exact fun q hq => take_letters ((hquiet q hq).1.trans hesc) hw hc
    · rw [take_plain hesc hw, hp]
      dsimp only
      rw [takeOperand_settle hp, hcongr (·.takeOperand word)]
      intro q hq
      rw [take_plain ((hquiet q hq).1.trans hesc) hw, (hquiet q hq).2]

end

/-! ## Reading on -/

/-- A word that names a command opens the part below, unless a value is waited for. -/
theorem readAll_cons (p : Part) (word : String) : p.readAll (word :: words) =
    match p.command? word with
    | some .help => .error (helpFor p.command words)
    | some c => do
      let below ← (start c).readAll words
      .ok ((← p.finish true) :: below)
    | none => p.take word >>= (·.readAll words) := rfl

theorem finish_settle (p : Part) (goesOn : Bool) :
    (p.settle >>= (·.finish goesOn)) = p.finish goesOn :=
  p.settle_bind_settle _

theorem settle_escape {text : String} (hp : p.pending = .value s (some text)) :
    ({ p with escaped := true } : Part).settle =
      p.settle.map fun q => { q with escaped := true } := by
  have hholds : ({ p with escaped := true } : Part).holds s = p.holds s := rfl
  rw [settle_of_value hp, settle_of_value (by exact hp)]
  unfold give
  rw [hholds]
  split
  · rfl
  · split <;> rfl

/-- No command begins with a hyphen. -/
theorem command?_hyphen {word : String} (h : word.toList.head? = some '-') :
    p.command? word = none := by
  unfold command?
  split
  · rfl
  · exact p.command.lookup_next_hyphen h

theorem command?_settle {text : String} (hp : p.pending = .value s (some text))
    (hq : p.settle = .ok q) (word : String) : q.command? word = p.command? word := by
  rw [settle_of_value hp] at hq
  rw [give_eq_ok hq]
  unfold command? isBusy
  rw [hp]
  rfl

/-- A value that has been read may be settled before the next word. -/
theorem readAll_settle {text : String} (hp : p.pending = .value s (some text))
    (words : List String) :
    (p.readAll words).toOption = (p.settle >>= (·.readAll words)).toOption := by
  induction words generalizing p with
  | nil =>
    have hread (q : Part) : q.readAll [] = q.finish false >>= fun q => .ok [q] := rfl
    rw [hread, ← finish_settle p]
    cases p.settle <;> rfl
  | cons word words ih =>
    by_cases hh : p.escaped = false ∧ word.toList = ['-', '-']
    · -- Two hyphens leave the value as it is; it is settled by what comes behind them.
      obtain ⟨hesc, hw⟩ := hh
      have hhead : word.toList.head? = some '-' := by rw [hw]; rfl
      have hread (q : Part) (hq : q.escaped = false) :
          q.readAll (word :: words) = ({ q with escaped := true } : Part).readAll words := by
        rw [readAll_cons, command?_hyphen hhead, take_hyphens hq hw]
        rfl
      rw [hread p hesc, ih (by exact hp), settle_escape hp]
      rcases settle_cases hp with ⟨e, he⟩ | hq
      · rw [he]
        rfl
      · rw [hq]
        exact congrArg Except.toOption (hread { p with
          given := p.given ++ [(s, some text)]
          pending := .nothing } hesc).symm
    have hstep : p.escaped = true ∨ word.toList ≠ ['-', '-'] := by
      cases hesc : p.escaped with
      | true => exact .inl rfl
      | false => exact .inr fun hw => hh ⟨hesc, hw⟩
    have htake := take_settle hp hstep
    rw [readAll_cons]
    cases hs : p.settle with
    | error e =>
      rw [hs] at htake
      have hfinish : p.finish true = .error e := by
        rw [← finish_settle, hs]
        rfl
      split
      · rfl
      · rw [toOption_bind, hfinish]
        cases (readAll _ words).toOption <;> rfl
      · rw [toOption_bind, htake]
        rfl
    | ok q =>
      rw [hs] at htake
      have hfinish : p.finish true = q.finish true := by
        rw [← finish_settle, hs]
        rfl
      change _ = (q.readAll (word :: words)).toOption
      rw [readAll_cons, command?_settle hp hs, hfinish]
      have hcommand : q.command = p.command := by
        rw [settle_of_value hp] at hs
        rw [give_eq_ok hs]
      split
      · rfl
      · rfl
      · rw [toOption_bind, htake]
        exact (toOption_bind ..).symm

end Part
end Relabel.CommandLine
