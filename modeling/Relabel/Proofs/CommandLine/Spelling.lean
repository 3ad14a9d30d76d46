import Mathlib.Data.List.TakeWhile
import Relabel.Proofs.CommandLine.Reading

/-!
# How switches are written

A switch is written with its letter or with its name, and its value in the word of the switch or in
the next one; several letters may share a word. All this leads to the same: the switches are given
to the part in turn.

* `Part.giveAll`: gives switches in turn.
* `Part.Spells`: the words that spell switches with their values.
* `Part.readAll_spells`: reading words that spell switches comes to giving the switches.
-/

namespace Relabel.CommandLine

/-- A switch with its value. -/
abbrev Given := Switch × Option String

namespace Command

theorem ofName?_name {c : Command} {s : Switch} (h : c.takes s = true) :
    c.ofName? s.name = some s := by
  revert h
  cases c <;> cases s <;> decide

theorem ofLetter?_letter {c : Command} {s : Switch} {l : Char} (h : c.takes s = true)
    (hl : s.letter? = some l) : c.ofLetter? l = some s := by
  revert h
  cases s <;> cases hl <;> cases c <;> decide

end Command

namespace Switch

/-- A name is not cut at an equals sign, and does not end in the hyphens before it. -/
theorem name_plain (s : Switch) : s.name.toList ≠ [] ∧ '=' ∉ s.name.toList := by
  cases s <;> decide

theorem letter_ne_hyphen {s : Switch} {l : Char} (h : s.letter? = some l) : l ≠ '-' := by
  cases s <;> cases h <;> decide

end Switch

namespace Part

variable {p q : Part} {c : Command} {s : Switch} {gs : List Given} {words after : List String}

/-! ## Giving -/

/-- Gives a switch, or stops where it asks for help or for the version. -/
def receive (p : Part) (g : Given) : Except Refusal Part :=
  match g.1 with
  | .help => .error .help
  | .version => .error .version
  | s => p.give s g.2

/-- Gives switches in turn. -/
def giveAll (p : Part) : List Given → Except Refusal Part
  | [] => .ok p
  | g :: gs => do (← p.receive g).giveAll gs

/-! ## Spelling -/

section

variable (c : Command)

/-- Letters behind one hyphen that spell switches, with the words that must follow. -/
inductive Cluster : List Given → List Char → List String → Prop
  | flag {s : Switch} {l : Char} : c.takes s = true → s.takesValue = false → s.letter? = some l →
    Cluster [(s, none)] [l] []
  | more {s : Switch} {l : Char} {gs : List Given} {ls : List Char} {after : List String} :
    c.takes s = true → s.takesValue = false → s.letter? = some l → Cluster gs ls after →
    Cluster ((s, none) :: gs) (l :: ls) after
  /-- The value follows the letter. -/
  | attached {s : Switch} {l v : Char} {vs : List Char} : c.takes s = true → s.takesValue = true →
    s.letter? = some l → v ≠ '=' → Cluster [(s, some (.ofList (v :: vs)))] (l :: v :: vs) []
  | equals {s : Switch} {l : Char} (vs : List Char) : c.takes s = true → s.takesValue = true →
    s.letter? = some l → Cluster [(s, some (.ofList vs))] (l :: '=' :: vs) []
  /-- The value is the next word. -/
  | apart {s : Switch} {l : Char} {word : String} : c.takes s = true → s.takesValue = true →
    s.letter? = some l → IsPlain word → Cluster [(s, some word)] [l] [word]

/-- Words that spell switches behind a command, none of them left incomplete. -/
inductive Spells : List Given → List String → Prop
  | nil : Spells [] []
  | letters {gs hs : List Given} {ls : List Char} {after words : List String} :
    Cluster c gs ls after → Spells hs words →
    Spells (gs ++ hs) (String.ofList ('-' :: ls) :: after ++ words)
  | flag {s : Switch} {hs : List Given} {words : List String} : c.takes s = true →
    s.takesValue = false → Spells hs words → Spells ((s, none) :: hs) (("--" ++ s.name) :: words)
  | equals {s : Switch} (value : String) {hs : List Given} {words : List String} :
    c.takes s = true → s.takesValue = true → Spells hs words →
    Spells ((s, some value) :: hs) (("--" ++ s.name ++ "=" ++ value) :: words)
  | apart {s : Switch} {word : String} {hs : List Given} {words : List String} :
    c.takes s = true → s.takesValue = true → IsPlain word → Spells hs words →
    Spells ((s, some word) :: hs) (("--" ++ s.name) :: word :: words)

end

/-! ## Reading what is spelled -/

/-- A switch that is received stands behind those before it. -/
theorem receive_eq_ok {g : Given} (h : p.receive g = .ok q) :
    q = { p with given := p.given ++ [g], pending := .nothing } := by
  unfold receive at h
  split at h
  · cases h
  · cases h
  · exact give_eq_ok h

theorem receive_of_takesValue (h : s.takesValue = true) (p : Part) (text : Option String) :
    p.receive (s, text) = p.give s text := by
  cases s <;> first | rfl | cases h

/-- Switches may be given in two goes. -/
theorem giveAll_append (p : Part) (gs hs : List Given) :
    p.giveAll (gs ++ hs) = p.giveAll gs >>= (·.giveAll hs) := by
  induction gs generalizing p with
  | nil => rfl
  | cons g gs ih =>
    change p.receive g >>= _ = (p.receive g >>= _) >>= _
    cases p.receive g with
    | error e => rfl
    | ok q => exact ih q

/-- Nothing has been begun. -/
structure IsQuiet (p : Part) (c : Command) : Prop where
  command : p.command = c
  escaped : p.escaped = false
  pending : p.pending = .nothing

theorem IsQuiet.receive {g : Given} (h : p.IsQuiet c) (hq : p.receive g = .ok q) :
    q.IsQuiet c := by
  rw [receive_eq_ok hq]
  exact ⟨h.command, h.escaped, rfl⟩

/-- A switch without a value is given at once. -/
theorem takeFlag_of_quiet (h : p.pending = .nothing) (s : Switch) :
    p.takeFlag s = p.receive (s, none) := by
  rw [takeFlag, settle_of_nothing h]
  cases s <;> rfl

theorem takeValued_of_quiet (h : p.pending = .nothing) (hs : s.takesValue = true)
    (text : String) : p.takeValued s (some text) = p.receive (s, some text) := by
  rw [takeValued, settle_of_nothing h, receive_of_takesValue hs]
  rfl

/-- A value that is due is the next word. -/
theorem readAll_value (h : p.IsQuiet c) (hs : s.takesValue = true) {word : String}
    (hw : IsPlain word) (rest : List String) :
    (p.takeValued s none >>= (·.readAll (word :: rest))).toOption =
      (p.receive (s, some word) >>= (·.readAll rest)).toOption := by
  rw [takeValued, settle_of_nothing h.pending]
  change (Part.readAll { p with pending := .value s none } (word :: rest)).toOption = _
  rw [readAll_cons]
  have hbusy : ({ p with pending := .value s none } : Part).command? word = none := by
    rw [command?, isBusy, h.escaped]
    rfl
  rw [hbusy, take_plain (by exact h.escaped) hw]
  change (Part.readAll { p with pending := .value s (some word) } rest).toOption = _
  rw [readAll_settle rfl, settle_of_value rfl, receive_of_takesValue hs]
  rfl

theorem giveAll_singleton (p : Part) (g : Given) : p.giveAll [g] = p.receive g := by
  change p.receive g >>= (fun q => Except.ok q) = p.receive g
  cases p.receive g <;> rfl

/-- What is given with a letter that takes a value; there is none if no characters follow it. -/
def valueBehind : List Char → Option String
  | [] => none
  | '=' :: vs => some (.ofList vs)
  | vs => some (.ofList vs)

theorem takeLetters_cons (p : Part) (l : Char) (ls : List Char) : p.takeLetters (l :: ls) =
    match p.command.ofLetter? l with
    | none => .error .unknownArgument
    | some s =>
      if s.takesValue then p.takeValued s (valueBehind ls)
      else p.takeFlag s >>= (·.takeLetters ls) :=
  rfl

section

variable {l : Char} (hp : p.IsQuiet c) (ht : c.takes s = true) (hl : s.letter? = some l)
include hp ht hl

/-- Behind a switch without a value the next letter is a switch again. -/
theorem takeLetters_flag (hv : s.takesValue = false) (ls : List Char) :
    p.takeLetters (l :: ls) = p.receive (s, none) >>= (·.takeLetters ls) := by
  rw [takeLetters_cons, hp.command, c.ofLetter?_letter ht hl]
  dsimp only
  rw [hv, if_neg nofun, takeFlag_of_quiet hp.pending]

/-- What stands behind a switch with a value is the value. -/
theorem takeLetters_valued (hv : s.takesValue = true) (ls : List Char) :
    p.takeLetters (l :: ls) = p.takeValued s (valueBehind ls) := by
  rw [takeLetters_cons, hp.command, c.ofLetter?_letter ht hl]
  exact if_pos hv

end

theorem readAll_cluster {ls : List Char} (h : Cluster c gs ls after) (hp : p.IsQuiet c)
    (rest : List String) : (p.takeLetters ls >>= (·.readAll (after ++ rest))).toOption =
      (p.giveAll gs >>= (·.readAll rest)).toOption := by
  induction h generalizing p with
  | flag ht hv hl =>
    rw [takeLetters_flag hp ht hl hv, giveAll_singleton]
    cases p.receive _ <;> rfl
  | @more s _ gs ls after ht hv hl _ ih =>
    rw [takeLetters_flag hp ht hl hv]
    change _ = ((p.receive (s, none) >>= (·.giveAll gs)) >>= _).toOption
    cases hq : p.receive (s, none) with
    | error e => rfl
    | ok q => exact ih (hp.receive hq)
  | @attached s _ v vs ht hv hl hne =>
    have hvalue : valueBehind (v :: vs) = some (.ofList (v :: vs)) := by
      unfold valueBehind
      split
      · next h => cases h
      · next h => exact absurd (List.cons.inj h).1 hne
      · rfl
    rw [takeLetters_valued hp ht hl hv, giveAll_singleton, hvalue,
      takeValued_of_quiet hp.pending hv]
    rfl
  | equals vs ht hv hl =>
    rw [takeLetters_valued hp ht hl hv, giveAll_singleton, valueBehind,
      takeValued_of_quiet hp.pending hv]
    rfl
  | apart ht hv hl hw =>
    rw [takeLetters_valued hp ht hl hv, giveAll_singleton]
    exact readAll_value hp hv hw rest

theorem cutValue_of_not_mem {cs : List Char} (h : '=' ∉ cs) : cutValue cs = (cs, none) := by
  have hall : ∀ c ∈ cs, decide (c ≠ '=') = true := by
    rintro c hc
    exact decide_eq_true fun heq => h (heq ▸ hc)
  rw [cutValue, List.dropWhile_eq_nil_iff.mpr hall]

theorem cutValue_append {cs : List Char} (h : '=' ∉ cs) (vs : List Char) :
    cutValue (cs ++ '=' :: vs) = (cs, some vs) := by
  have hall : ∀ c ∈ cs, decide (c ≠ '=') = true := by
    rintro c hc
    exact decide_eq_true fun heq => h (heq ▸ hc)
  rw [cutValue, List.dropWhile_append_of_pos hall, List.takeWhile_append_of_pos hall]
  simp

section

variable (hp : p.IsQuiet c) (ht : c.takes s = true)
include hp ht

theorem takeName_flag (hv : s.takesValue = false) :
    p.takeName s.name.toList = p.receive (s, none) := by
  rw [takeName, cutValue_of_not_mem s.name_plain.2]
  dsimp only
  rw [String.ofList_toList, hp.command, c.ofName?_name ht]
  dsimp only
  rw [hv, if_neg nofun, Option.isSome_none, if_neg nofun, takeFlag_of_quiet hp.pending]

theorem takeName_valued (hv : s.takesValue = true) :
    p.takeName s.name.toList = p.takeValued s none := by
  rw [takeName, cutValue_of_not_mem s.name_plain.2]
  dsimp only
  rw [String.ofList_toList, hp.command, c.ofName?_name ht]
  exact if_pos hv

/-- Behind an equals sign there is the value, which may be empty. -/
theorem takeName_equals (hv : s.takesValue = true) (value : String) :
    p.takeName (s.name.toList ++ '=' :: value.toList) = p.receive (s, some value) := by
  rw [takeName, cutValue_append s.name_plain.2]
  dsimp only
  rw [String.ofList_toList, hp.command, c.ofName?_name ht]
  dsimp only
  rw [if_pos hv, Option.map_some, String.ofList_toList, takeValued_of_quiet hp.pending hv]

end

/-- A word that begins with a hyphen is read on its own. -/
theorem readAll_hyphen {word : String} (h : word.toList.head? = some '-') (p : Part)
    (rest : List String) : p.readAll (word :: rest) = p.take word >>= (·.readAll rest) := by
  rw [readAll_cons, command?_hyphen h]

theorem readAll_name {word : String} {cs : List Char} (hw : word.toList = '-' :: '-' :: cs)
    (hne : cs ≠ []) (hp : p.IsQuiet c) (rest : List String) :
    p.readAll (word :: rest) = p.takeName cs >>= (·.readAll rest) := by
  obtain ⟨d, cs, rfl⟩ := List.exists_cons_of_ne_nil hne
  rw [readAll_hyphen (by rw [hw]; rfl), take_name hp.escaped hw]

theorem Cluster.letters {ls : List Char} (h : Cluster c gs ls after) :
    ∃ d cs, ls = d :: cs ∧ d ≠ '-' := by
  cases h with
  | flag _ _ hl | more _ _ hl | attached _ _ hl | equals _ _ _ hl | apart _ _ hl =>
    exact ⟨_, _, rfl, Switch.letter_ne_hyphen hl⟩

theorem IsQuiet.giveAll (h : p.IsQuiet c) (hq : p.giveAll gs = .ok q) : q.IsQuiet c := by
  induction gs generalizing p with
  | nil =>
    cases hq
    exact h
  | cons g gs ih =>
    obtain ⟨r, hr, hq⟩ := bind_eq_ok hq
    exact ih (h.receive hr) hq

/-- Reading words that spell switches comes to giving the switches. -/
theorem readAll_spells (h : Spells c gs words) (hp : p.IsQuiet c) (rest : List String) :
    (p.readAll (words ++ rest)).toOption = (p.giveAll gs >>= (·.readAll rest)).toOption := by
  have hcons (g : Given) (hs : List Given) {words : List String} {p : Part} (hp : p.IsQuiet c)
      (ih : ∀ {q : Part}, q.IsQuiet c →
        (q.readAll (words ++ rest)).toOption = (q.giveAll hs >>= (·.readAll rest)).toOption) :
      (p.receive g >>= (·.readAll (words ++ rest))).toOption =
        (p.giveAll (g :: hs) >>= (·.readAll rest)).toOption := by
    change _ = ((p.receive g >>= (·.giveAll hs)) >>= _).toOption
    cases hq : p.receive g with
    | error e => rfl
    | ok q => exact ih (hp.receive hq)
  induction h generalizing p with
  | nil => rfl
  | @letters gs hs ls after words hcluster _ ih =>
    obtain ⟨d, cs, rfl, hd⟩ := hcluster.letters
    have hw : (String.ofList ('-' :: d :: cs)).toList = '-' :: d :: cs := String.toList_ofList
    rw [List.cons_append, List.cons_append, readAll_hyphen (by rw [hw]; rfl),
      take_letters hp.escaped hw hd, List.append_assoc, readAll_cluster hcluster hp, giveAll_append]
    cases hq : p.giveAll gs with
    | error e => rfl
    | ok q => exact ih (hp.giveAll hq)
  | @flag s hs words ht hv _ ih =>
    have hw : ("--" ++ s.name).toList = '-' :: '-' :: s.name.toList := by simp
    rw [List.cons_append, readAll_name hw s.name_plain.1 hp, takeName_flag hp ht hv]
    exact hcons (s, none) hs hp ih
  | @equals s value hs words ht hv _ ih =>
    have hw : ("--" ++ s.name ++ "=" ++ value).toList =
        '-' :: '-' :: (s.name.toList ++ '=' :: value.toList) := by simp
    rw [List.cons_append, readAll_name hw (by simp) hp, takeName_equals hp ht hv]
    exact hcons (s, some value) hs hp ih
  | @apart s word hs words ht hv hplain _ ih =>
    have hw : ("--" ++ s.name).toList = '-' :: '-' :: s.name.toList := by simp
    rw [List.cons_append, List.cons_append, readAll_name hw s.name_plain.1 hp,
      takeName_valued hp ht hv, readAll_value hp hv hplain]
    exact hcons (s, some word) hs hp ih

end Part
end Relabel.CommandLine
