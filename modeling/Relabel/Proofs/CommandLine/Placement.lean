import Relabel.Proofs.CommandLine.Before

/-!
# Where a switch stands

A switch that counts for the whole line may stand before a command or behind it. Given once, it is
the last of its sort on the line in both places, and nothing else that a part is given depends on
it.

* `decisive`: what the last part that holds a switch has been given of it, which is all that counts
  (`ofParts_congr`).
* `ofWords_route`: a line with switches, a command and further words.
* `ofWords_global`: a switch given once may be moved over the words of a command.
-/

namespace Relabel.CommandLine

namespace Part

variable {p : Part} {s : Switch}

/-! ## What a part has been given of a switch -/

/-- What the part has been given of a switch. -/
def givenOf (p : Part) (s : Switch) : List Given := p.given.filter (·.1 == s)

theorem holds_eq (p : Part) (s : Switch) : p.holds s = !(p.givenOf s).isEmpty := by
  rw [Bool.eq_iff_iff]
  simp [holds, givenOf, List.filter_eq_nil_iff]

theorem lookup_eq (s : Switch) (gs : List Given) :
    gs.lookup s = (gs.filter (·.1 == s)).head?.map Prod.snd := by
  induction gs with
  | nil => rfl
  | cons g gs ih =>
    obtain ⟨t, text⟩ := g
    by_cases h : t = s
    · subst h
      simp
    · rw [List.lookup_cons, beq_eq_false_iff_ne.mpr (Ne.symm h),
        List.filter_cons_of_neg (by simpa using h)]
      exact ih

theorem value?_eq (p : Part) (s : Switch) :
    p.value? s = ((p.givenOf s).head?.map Prod.snd).join := by
  rw [value?, lookup_eq, givenOf]

theorem givenOf_of_holds (h : p.holds s = false) : p.givenOf s = [] := by
  rw [holds_eq] at h
  simpa using h

end Part

open CommandLine.Part

variable {p q : Part} {c : Command} {s : Switch} {g : Given} {gs : List Given}
  {parts parts' : List Part} {words rest : List String}

/-! ## What counts for the whole line -/

/-- What the last part that holds a switch has been given of it. -/
def decisive (s : Switch) (parts : List Part) : Option (List Given) :=
  (parts.reverse.map (·.givenOf s)).find? (!·.isEmpty)

theorem map_lastWith (s : Switch) (parts : List Part) :
    (lastWith s parts).map (·.givenOf s) = decisive s parts := by
  rw [decisive, List.find?_map, lastWith]
  congr 2
  funext p
  exact p.holds_eq s

/-- A line has a switch where the part that decides on it has it. -/
theorem isGiven_eq (s : Switch) (parts : List Part) :
    isGiven s parts = (decisive s parts).isSome := by
  rw [← map_lastWith, Option.isSome_map]
  rfl

theorem value?_eq_decisive (s : Switch) (parts : List Part) :
    value? s parts = (decisive s parts).bind fun gs => (gs.head?.map Prod.snd).join := by
  rw [← map_lastWith, Option.bind_map, value?]
  congr 1
  funext p
  exact p.value?_eq s

theorem count_eq_decisive (s : Switch) (parts : List Part) :
    count s parts = ((decisive s parts).map List.length).getD 0 := by
  rw [← map_lastWith, Option.map_map, count]
  congr 2
  funext p
  exact List.countP_eq_length_filter

/-- A request depends on what the last part that holds a switch has been given of it, on the command
and the operands of the last part, and on what the first part and the last have been given of their
own. -/
theorem ofParts_congr {first first' last last' : Part} (hlast : parts.getLast? = some last)
    (hlast' : parts'.getLast? = some last') (hcommand : last'.command = last.command)
    (hoperands : last'.operands = last.operands) (hfirst : first'.operands = first.operands)
    (hown : ∀ s, s.isGlobal = false →
      first'.givenOf s = first.givenOf s ∧ last'.givenOf s = last.givenOf s)
    (hglobal : ∀ s, s.isGlobal = true → decisive s parts' = decisive s parts) :
    ofParts first' parts' = ofParts first parts := by
  have hvalue (s : Switch) (hs : s.isGlobal = false) :
      first'.value? s = first.value? s ∧ last'.value? s = last.value? s := by
    obtain ⟨hf, hl⟩ := hown s hs
    simp only [Part.value?_eq, hf, hl, and_self]
  have haction : actionOf last' = actionOf last := by
    unfold actionOf
    rw [hcommand, hoperands, (hvalue .find rfl).2, (hvalue .replace rfl).2]
  have hpaths : (if last'.command = .tokens then last' else first').operands =
      (if last.command = .tokens then last else first).operands := by
    rw [hcommand]
    split
    · exact hoperands
    · exact hfirst
  unfold ofParts
  rw [hlast, hlast']
  simp only [Option.getD_some, haction, hpaths, value?_eq_decisive, isGiven_eq,
    count_eq_decisive, (hvalue .find rfl).1, (hvalue .replace rfl).1, (hvalue .preset rfl).1,
    hglobal .settings rfl, hglobal .manifest rfl, hglobal .timeline rfl, hglobal .anySequence rfl,
    hglobal .verbose rfl, hglobal .yes rfl, hglobal .logFile rfl, hglobal .logLocally rfl,
    Part.holds_eq, (hown .dry rfl).1]

/-! ## Moving a switch -/

/-- The words that call for a command at the front of a line. -/
def Command.route : Command → List String
  | rename => []
  | presets => ["presets"]
  | listPresets => ["presets", "list"]
  | savePreset => ["presets", "save"]
  | deletePreset => ["presets", "delete"]
  | tokens => ["tokens"]
  | help => ["help"]

/-- The parts between the first part of a line and that of a command. -/
def Command.between : Command → List Part
  | listPresets | savePreset | deletePreset => [.start .presets]
  | _ => []

/-- The commands that are carried out and that words call for. -/
def Command.isCalled : Command → Bool
  | listPresets | savePreset | deletePreset | tokens => true
  | _ => false

theorem readAll_command {word : String} (hp : p.IsQuiet c) (hname : c.operands ≠ .name)
    (below : Command) (hnext : c.next.lookup word = some below) (hhelp : below ≠ .help)
    (rest : List String) : p.readAll (word :: rest) =
      (Part.start below).readAll rest >>= fun parts => .ok (p :: parts) := by
  have hcommand : p.command? word = some below := by
    unfold command? isBusy
    rw [hp.escaped, hp.pending, hp.command]
    exact hnext
  have hfinish : p.finish true = .ok p := by
    unfold finish
    rw [settle_of_nothing hp.pending]
    dsimp only [bind, Except.bind]
    rw [hp.command, Bool.not_true, Bool.and_false, if_neg nofun, if_neg (by simp [hname])]
  rw [readAll_cons, hcommand]
  split
  · next h => exact absurd (Option.some.inj h) hhelp
  · next h =>
    cases h
    rw [hfinish]
    rfl
  · next h => cases h

theorem readAll_route (hc : c.isCalled = true) (hp : p.IsQuiet .rename) (rest : List String) :
    p.readAll (c.route ++ rest) =
      (Part.start c).readOne rest >>= fun last => .ok (p :: (c.between ++ [last])) := by
  have hpreset (word : String) (below : Command) (hnil : below.next = []) (hhelp : below ≠ .help)
      (hnext : Command.presets.next.lookup word = some below) :
      p.readAll ("presets" :: word :: rest) = (Part.start below).readOne rest >>= fun last =>
        .ok (p :: ([.start .presets] ++ [last])) := by
    rw [readAll_command hp nofun .presets rfl nofun,
      readAll_command (p := .start .presets) ⟨rfl, rfl, rfl⟩ nofun below hnext hhelp,
      readAll_of_next_eq_nil hnil]
    cases (Part.start below).readOne rest <;> rfl
  cases c with
  | tokens =>
    change p.readAll ("tokens" :: rest) = _
    rw [readAll_command hp nofun .tokens rfl nofun, readAll_of_next_eq_nil rfl]
    cases (Part.start .tokens).readOne rest <;> rfl
  | listPresets => exact hpreset "list" .listPresets rfl nofun rfl
  | savePreset => exact hpreset "save" .savePreset rfl nofun rfl
  | deletePreset => exact hpreset "delete" .deletePreset rfl nofun rfl
  | _ => cases hc

/-- A line with switches, a command and further words. -/
theorem ofWords_route (hc : c.isCalled = true) (h : Spells .rename gs words)
    (rest : List String) : (ofWords (words ++ (c.route ++ rest))).toOption =
      ((Part.start .rename).giveAll gs >>= fun first =>
        (Part.start c).readOne rest >>= fun last =>
          .ok (ofParts first (first :: (c.between ++ [last])))).toOption := by
  have hquiet : (Part.start .rename).IsQuiet .rename := ⟨rfl, rfl, rfl⟩
  unfold ofWords
  rw [toOption_bind, readAll_spells h hquiet, ← toOption_bind]
  cases hg : (Part.start .rename).giveAll gs with
  | error e => rfl
  | ok first =>
    have hroute := readAll_route hc (hquiet.giveAll hg) rest
    change (first.readAll (c.route ++ rest) >>= _).toOption = _
    rw [hroute]
    cases (Part.start c).readOne rest <;> rfl

theorem Command.takes_of_isGlobal (h : s.isGlobal = true) (c : Command) : c.takes s = true := by
  rw [Command.takes, h]
  rfl

/-- Switches that count for the whole line are spelled alike behind all commands. -/
theorem spells_of_isGlobal {c' : Command} (h : Spells c gs words)
    (hg : ∀ g ∈ gs, g.1.isGlobal = true) : Spells c' gs words := by
  have hcluster {gs ls after} (h : Cluster c gs ls after) (hg : ∀ g ∈ gs, g.1.isGlobal = true) :
      Cluster c' gs ls after := by
    have htakes {g : Given} {gs : List Given} (hg : ∀ g' ∈ g :: gs, g'.1.isGlobal = true) :
        c'.takes g.1 = true :=
      c'.takes_of_isGlobal (hg g List.mem_cons_self)
    induction h with
    | flag _ hv hl => exact .flag (htakes hg) hv hl
    | more _ hv hl _ ih =>
      exact .more (htakes hg) hv hl (ih fun g hm => hg g (List.mem_cons_of_mem _ hm))
    | attached _ hv hl hne => exact .attached (htakes hg) hv hl hne
    | equals vs _ hv hl => exact .equals vs (htakes hg) hv hl
    | apart _ hv hl hw => exact .apart (htakes hg) hv hl hw
  induction h with
  | nil => exact .nil
  | letters hl _ ih =>
    obtain ⟨hgs, hhs⟩ := List.forall_mem_append.mp hg
    exact .letters (hcluster hl hgs) (ih hhs)
  | flag _ hv _ ih =>
    obtain ⟨hs, hg⟩ := List.forall_mem_cons.mp hg
    exact .flag (c'.takes_of_isGlobal hs) hv (ih hg)
  | equals value _ hv _ ih =>
    obtain ⟨hs, hg⟩ := List.forall_mem_cons.mp hg
    exact .equals value (c'.takes_of_isGlobal hs) hv (ih hg)
  | apart _ hv hw _ ih =>
    obtain ⟨hs, hg⟩ := List.forall_mem_cons.mp hg
    exact .apart (c'.takes_of_isGlobal hs) hv hw (ih hg)

theorem spells_append {hs : List Given} {words' : List String} (h : Spells c gs words)
    (h' : Spells c hs words') : Spells c (gs ++ hs) (words ++ words') := by
  induction h with
  | nil => exact h'
  | letters hl _ ih =>
    rw [List.append_assoc, List.append_assoc]
    exact .letters hl ih
  | flag ht hv _ ih => exact .flag ht hv ih
  | equals value ht hv _ ih => exact .equals value ht hv ih
  | apart ht hv hw _ ih => exact .apart ht hv hw ih

/-- A switch that has not been given yet is given if its value is acceptable. -/
theorem receive_of_not_holds (hs : g.1.isGlobal = true) (h : p.holds g.1 = false) :
    p.receive g = if g.1.isPath && g.2.any (·.isEmpty) then .error .invalidValue
      else .ok { p with given := p.given ++ [g], pending := .nothing } := by
  obtain ⟨s, text⟩ := g
  have hgive : p.receive (s, text) = p.give s text := by
    cases s <;> first | rfl | cases hs
  rw [hgive, give]
  dsimp only at h
  rw [h]
  rfl

theorem holds_of_giveAll (hq : p.giveAll gs = .ok q) (s : Switch) :
    q.holds s = (p.holds s || gs.any (·.1 == s)) := by
  induction gs generalizing p with
  | nil =>
    cases hq
    rw [List.any_nil, Bool.or_false]
  | cons g gs ih =>
    obtain ⟨r, hr, hq⟩ := bind_eq_ok hq
    rw [ih hq, receive_eq_ok hr, List.any_cons, ← Bool.or_assoc]
    simp [Part.holds]

/-- The request is the same, whether the first part holds a switch or the last one. -/
theorem ofParts_move {first last : Part} (c : Command) (hg : g.1.isGlobal = true)
    (hfirst : first.holds g.1 = false) (hlast : last.holds g.1 = false) :
    let first' : Part := { first with given := first.given ++ [g], pending := .nothing }
    ofParts first (first :: (c.between ++ [last.behind g])) =
      ofParts first' (first' :: (c.between ++ [last])) := by
  intro first'
  have hends (a b : Part) : (a :: (c.between ++ [b])).getLast? = some b := by
    rw [← List.cons_append]
    exact List.getLast?_concat
  have hgiven' (s : Switch) (h : s ≠ g.1) : first.givenOf s = first'.givenOf s ∧
      (last.behind g).givenOf s = last.givenOf s := by
    have hne : (g.1 == s) = false := beq_eq_false_iff_ne.mpr (Ne.symm h)
    constructor
    · simp [first', givenOf, List.filter_append, hne]
    · simp [behind, givenOf, hne]
  refine ofParts_congr (hends _ _) (hends _ _) rfl rfl rfl (fun s hs => hgiven' s ?_)
    fun s _ => ?_
  · rintro rfl
    rw [hg] at hs
    cases hs
  · have hmap (a b : Part) : ((a :: (c.between ++ [b])).reverse.map (·.givenOf s)) =
        b.givenOf s :: ((c.between.map (·.givenOf s)).reverse ++ [a.givenOf s]) := by
      simp
    unfold decisive
    rw [hmap, hmap]
    by_cases h : s = g.1
    · subst h
      have hbetween : ∀ gs ∈ (c.between.map (·.givenOf g.1)).reverse, gs = [] := by
        cases c <;> simp [Command.between, Part.start, givenOf]
      have hskip : (c.between.map (·.givenOf g.1)).reverse.find? (!·.isEmpty) = none := by
        refine List.find?_eq_none.mpr fun gs hgs => ?_
        rw [hbetween gs hgs]
        exact Bool.false_ne_true
      have hf' : first'.givenOf g.1 = [g] := by
        have hf := givenOf_of_holds hfirst
        rw [givenOf] at hf
        simp [first', givenOf, List.filter_append, hf]
      have hl' : (last.behind g).givenOf g.1 = [g] := by
        have hl := givenOf_of_holds hlast
        rw [givenOf] at hl
        simp [behind, givenOf, hl]
      rw [hl', givenOf_of_holds hlast, hf', List.find?_cons_of_pos rfl,
        List.find?_cons_of_neg (by simp), List.find?_append, hskip]
      rfl
    · obtain ⟨hf, hl⟩ := hgiven' s h
      rw [hf, hl]

theorem readOne_spells (hnil : c.next = []) (h : Spells c gs words) (hp : p.IsQuiet c)
    (rest : List String) : (p.readOne (words ++ rest)).toOption =
      (p.giveAll gs >>= readOne rest).toOption := by
  have hone {x y : Except Refusal Part}
      (h : (x >>= fun q => .ok [q]).toOption = (y >>= fun q => Except.ok [q]).toOption) :
      x.toOption = y.toOption := by
    cases x <;> cases y <;> simp_all [bind, Except.bind, Except.toOption]
  have hread := readAll_spells h hp rest
  rw [readAll_of_next_eq_nil (hp.command.symm ▸ hnil)] at hread
  refine hone (hread.trans ?_)
  cases hg : p.giveAll gs with
  | error e => rfl
  | ok q =>
    exact congrArg _ (readAll_of_next_eq_nil ((hp.giveAll hg).command.symm ▸ hnil) rest)

/-- A switch may be received by the first part or by that of the command, if neither holds it
otherwise. -/
theorem toOption_receive_move {first : Part} (hg : g.1.isGlobal = true)
    (hfirst : first.holds g.1 = false)
    (hlast : ∀ last, (Part.start c).readOne rest = .ok last → last.holds g.1 = false) :
    (first.receive g >>= fun first' => (Part.start c).readOne rest >>= fun last =>
        .ok (ofParts first' (first' :: (c.between ++ [last])))).toOption =
      ((Part.start c).receive g >>= fun p => p.readOne rest >>= fun last =>
        .ok (ofParts first (first :: (c.between ++ [last])))).toOption := by
  have hstart : (Part.start c).holds g.1 = false := rfl
  rw [receive_of_not_holds hg hfirst, receive_of_not_holds hg hstart]
  split
  · rfl
  change ((Part.start c).readOne rest >>= _).toOption =
    (((Part.start c).behind g).readOne rest >>= _).toOption
  have hread := (reads_readOne g rest).behind (.start c)
  cases hr : (Part.start c).readOne rest with
  | error e =>
    rw [hr] at hread
    rcases hread with hb | ⟨⟨e', he⟩, -⟩
    · rw [hb]
      rfl
    · rw [he]
      rfl
  | ok last =>
    rw [hr] at hread
    rcases hread with hb | ⟨-, hall⟩
    · rw [hb]
      exact congrArg some (ofParts_move c hg hfirst (hlast last hr)).symm
    · exact absurd (hall last rfl) (by simp [hlast last hr])

/-- A switch that counts for the whole line and is given once may be moved from before the words of
a command to behind them: the line is still refused, or still makes the same request. Before the
command it may also share a word with other switches. -/
theorem ofWords_global {os : List Given} {opts : List String} (hc : c.isCalled = true)
    (hg : g.1.isGlobal = true) (hopts : Spells .rename os opts) (hwords : Spells .rename [g] words)
    (honce : g.1 ∉ os.map Prod.fst)
    (hrest : ∀ p, (Part.start c).readAll rest = .ok [p] → p.holds g.1 = false) :
    let moved := ofWords (opts ++ c.route ++ words ++ rest)
    (ofWords (opts ++ words ++ c.route ++ rest)).toOption = moved.toOption ∧
      ∀ before, Spells .rename (os ++ [g]) before →
        (ofWords (before ++ c.route ++ rest)).toOption = moved.toOption := by
  intro moved
  suffices hmoved : ∀ before, Spells .rename (os ++ [g]) before →
      (ofWords (before ++ c.route ++ rest)).toOption = moved.toOption from
    ⟨hmoved _ (spells_append hopts hwords), hmoved⟩
  intro before hbefore
  have hnil : c.next = [] := by cases c <;> first | rfl | cases hc
  have hbehind : Spells c [g] words :=
    spells_of_isGlobal hwords fun g' hg' => (List.mem_singleton.mp hg') ▸ hg
  have hlast := readOne_spells hnil hbehind (p := .start c) ⟨rfl, rfl, rfl⟩ rest
  have hleft := ofWords_route hc hbefore rest
  have hright := ofWords_route hc hopts (words ++ rest)
  rw [giveAll_append] at hleft
  have hassoc : moved = ofWords (opts ++ (c.route ++ (words ++ rest))) := by
    simp only [moved, List.append_assoc]
  rw [List.append_assoc, hleft, hassoc, hright]
  cases hos : (Part.start .rename).giveAll os with
  | error e => rfl
  | ok first =>
    have hfirst : first.holds g.1 = false := by
      rw [holds_of_giveAll hos]
      have hnot : ∀ g' ∈ os, g'.1 ≠ g.1 := fun g' h heq => honce (heq ▸ List.mem_map_of_mem h)
      simpa [Part.holds, Part.start] using hnot
    have hmove := toOption_receive_move (c := c) hg hfirst fun last hr => hrest last <| by
      rw [readAll_of_next_eq_nil hnil, hr]
      rfl
    change (first.giveAll [g] >>= _).toOption =
      ((Part.start c).readOne (words ++ rest) >>= _).toOption
    rw [giveAll_singleton, hmove, toOption_bind ((Part.start c).readOne _), hlast,
      giveAll_singleton]
    cases (Part.start c).receive g with
    | error e => rfl
    | ok p => exact toOption_bind (p.readOne rest) _

/-- The timeline is asked for before and behind the words that save a preset, which has a find text
of its own; the letter may also follow that of another switch. -/
theorem ofWords_global_timeline :
    let moved := ofWords ["-f", "a", "-n", "presets", "save", "--timeline", "x", "-f", "y"]
    (ofWords ["-f", "a", "-n", "--timeline", "presets", "save", "x", "-f", "y"]).toOption =
        moved.toOption ∧
      (ofWords ["-f", "a", "-nt", "presets", "save", "x", "-f", "y"]).toOption = moved.toOption ∧
      moved.toOption.map (fun line => (line.action, line.options.find?, line.options.timeline)) =
        some (.savePreset "x" "y" "", some "a", true) := by
  intro moved
  have hfind (gs : List Given) (ws : List String) (h : Spells .rename gs ws) :
      Spells .rename ((.find, some "a") :: gs) ("-f" :: "a" :: ws) :=
    .letters (.apart rfl rfl rfl (.inr (by decide))) h
  have hdry : Spells .rename [(.dry, none)] ["-n"] := .letters (.flag rfl rfl rfl) .nil
  have hboth : Spells .rename [(.dry, none), (.timeline, none)] ["-nt"] :=
    .letters (.more rfl rfl rfl (.flag rfl rfl rfl)) .nil
  have hrest : ∀ p, (Part.start .savePreset).readAll ["x", "-f", "y"] = .ok [p] →
      p.holds .timeline = false := by
    intro p hp
    cases hp
    rfl
  obtain ⟨hmoved, hjoined⟩ := ofWords_global (c := .savePreset) (g := (.timeline, none)) rfl rfl
    (hfind _ _ hdry) (.flag rfl rfl .nil) (by decide) hrest
  exact ⟨hmoved, hjoined _ (hfind _ _ hboth), by decide +kernel⟩

end Relabel.CommandLine
