import Relabel.Proofs.Preset.Names
import Relabel.Proofs.Session.Naming
import Relabel.Proofs.Session.Saving

/-!
# What saving a preset comes to

The user is asked for a name until one is not blank, and asked again before a preset of that name is
overwritten. The fields then go into the store under the name, whether or not the file can be
written. Nothing else of the session changes.

* `Session.naming`: what is put to the user up to the name.
* `Session.Kept`: what becomes of session, file and user when the fields have gone into the store.
* `Session.saving_of_answers`: the answers of the user decide what saving comes to.
-/

namespace Relabel.Session

variable {s : Session} {w w₁ : World} {name : String} {asked : List Asked}

/-! ## Storing -/

/-- The fields have gone into the store under a name, and the file has been written if it could be.
`asked` is what has been put to the user before. -/
structure Kept (s : Session) (name : String) (w : World) (asked : List Asked)
    (r : Except Error SaveOutcome × Session × World) : Prop where
  answer : r.1 = .ok (s.keptAs name (s.store.savable w))
  selected : r.2.1.selected = some name
  path : r.2.1.store.path = s.store.path
  dirty : r.2.1.store.dirty = !s.store.savable w
  received : s.store.catalogue.Received ⟨name, s.find, s.replace⟩ r.2.1.store.catalogue
  frame : r.2.1 = { s with store := r.2.1.store, selected := r.2.1.selected }
  written : s.store.savable w = true →
    Store.readCatalogue r.2.2.disk s.store.path = .ok r.2.1.store.catalogue ∧ w.Hears asked r.2.2
  unwritten : s.store.savable w = false → w.disk.SameLeaves r.2.2.disk ∧
    ∃ e : Error, w.Hears (asked ++
      [.error "Error" s!"Check permissions on {s.store.path}: {e.message}"]) r.2.2

theorem kept_storing (ht : w.Talk w₁) (hears : w.Hears asked w₁) :
    s.Kept name w asked (s.storing name w₁) := by
  have hsavable : (s.storeWith name).savable w₁ = s.store.savable w :=
    Store.savable_congr ht.disk rfl
  have hreceived : s.store.catalogue.Received (s.asPreset name) (s.storeWith name).catalogue :=
    Catalogue.received_keep ..
  rw [storing]
  cases hs : Act.on (s.storeWith name).save w₁ with
  | mk r w₂ =>
  have hsaid := hears.silence (Store.hears_of_save hs)
  cases r with
  | ok store =>
    rw [Store.savable_of_ok hs] at hsavable
    obtain ⟨rfl, -, hread, -⟩ := Store.save_ok hs
    exact {
      answer := congrArg (fun b => Except.ok (s.keptAs name b)) hsavable
      selected := rfl
      path := rfl
      dirty := congrArg not hsavable
      received := hreceived
      frame := rfl
      written := fun _ => ⟨hread, hsaid.silence (.tell _ rfl)⟩
      unwritten := fun h => by cases hsavable.trans h }
  | error e =>
    rw [Store.savable_of_error hs] at hsavable
    have hleaves := Store.sameLeaves_of_save_error hs
    rw [ht.disk] at hleaves
    exact {
      answer := congrArg (fun b => Except.ok (s.keptAs name b)) hsavable
      selected := rfl
      path := rfl
      dirty := congrArg not hsavable
      received := hreceived
      frame := rfl
      written := fun h => by cases hsavable.trans h
      unwritten := fun _ => ⟨hleaves, e, hsaid.trans (.notify ..)⟩ }

/-! ## Answers -/

/-- What is put to the user up to the name, after a number of blank ones. -/
def naming (s : Session) (count : Nat) : List Asked :=
  refusals s.selected count ++ [.name s.selected]

/-- Whether a user who has been put some requests lets a preset be overwritten. -/
def overwrites (p : Prompter) (asked : List Asked) : Bool :=
  ((p.after asked).confirm overwriteTitle overwriteMessage).answer

/-- The user is asked once more than there are blank answers, and told of an error for each of them.
Without a name, or where a preset is not to be overwritten, nothing changes. Otherwise the fields go
into the store under the name: in the place of the first preset of that name, or among the others in
the order of the names. -/
theorem saving_of_answers (w : World) (ho : s.state.isFinal = false) :
    ∃ count answer, count ≤ w.prompter.namesLeft ∧
      Named w.prompter s.selected count answer ∧
      let r := savePreset.on s w
      let asked := s.naming count
      (answer = none → r.1 = .ok .cancelled ∧ r.2.1 = s ∧ w.Talk r.2.2 ∧ w.Hears asked r.2.2) ∧
      ∀ name, answer = some name →
        (s.store.holds name = false → s.Kept name w asked r) ∧
        let asked' := asked ++ [.confirm overwriteTitle overwriteMessage]
        (s.store.holds name = true → overwrites w.prompter asked = false →
          r.1 = .ok (.declined name) ∧ r.2.1 = s ∧ w.Talk r.2.2 ∧ w.Hears asked' r.2.2) ∧
        (s.store.holds name = true → overwrites w.prompter asked = true →
          s.Kept name w asked' r) := by
  have hpatience : w.prompter.namesLeft < patience w := Nat.lt_succ_self _
  obtain ⟨count, hcount, hnamed, hears⟩ := named_askForName s.selected hpatience
  have ht := talk_askForName s.selected (patience w) w
  refine ⟨count, _, hcount, hnamed, ?_⟩
  rw [on_savePreset_eq w ho]
  generalize Deed.on (askForName s.selected (patience w)) w = r at hears ht ⊢
  obtain ⟨_ | name, w₁⟩ := r
  · refine ⟨fun _ => ⟨rfl, rfl, ht, hears⟩, fun name h => ?_⟩
    cases h
  refine ⟨fun h => ?_, fun _ h => ?_⟩ <;> cases h
  have ht' := ht.trans (.confirm overwriteTitle overwriteMessage w₁)
  have hears' := hears.trans (.confirm overwriteTitle overwriteMessage w₁)
  have hanswer : (Deed.on askOverwrite w₁).1 = overwrites w.prompter (s.naming count) := by
    rw [overwrites, naming, ← hears.prompter]
    rfl
  rw [← askOverwrite] at ht' hears'
  dsimp only
  generalize Deed.on askOverwrite w₁ = r at ht' hears' hanswer ⊢
  obtain ⟨agreed, w₂⟩ := r
  dsimp only at hanswer ⊢
  rw [← hanswer]
  cases hheld : s.store.holds name with
  | false =>
    refine ⟨fun _ => kept_storing ht hears, fun h => ?_, fun h => ?_⟩ <;> cases h
  | true =>
    refine ⟨fun h => ?_, fun _ ha => ?_, fun _ ha => ?_⟩
    · cases h
    · subst ha
      exact ⟨rfl, rfl, ht'.trans (.info ..), hears'.silence (.tell _ rfl)⟩
    · subst ha
      exact kept_storing ht' hears'

/-- A typed name after two blank lines, and a name that two presets have while a directory is in the
place of the file. -/
theorem saving_of_answers_typed :
    let setting : Setting := ⟨⟨2024, 2, 21, 15, 7, 0⟩, "feature", "kieran"⟩
    let store : Store := ⟨.ofString "p",
      ⟨"t", "1", [⟨"c", "x", "y"⟩, ⟨"a", "", ""⟩, ⟨"c", "z", ""⟩]⟩, false⟩
    let s : Session :=
      { blank ⟨[], []⟩ setting .none store .legacy with find := "s", replace := "u" }
    let world (d : Disk) (p : Prompter) : World := ⟨d, [], [], setting.now, p, [], 0⟩
    let typed := world ⟨[.folder 0 []], 0⟩ (.typist (Utf8.encode "\n \t\r\n b \n") true)
    let blocked := world ⟨[.folder 0 [(Utf8.encode "p", 1)], .folder 0 []], 0⟩
      (.scripted [some " ", some "c"] [true] [])
    s.state.isFinal = false ∧
      (savePreset.on s typed).1 = .ok (.added "b" true) ∧
      (savePreset.on s typed).2.2.errors.length = 2 ∧
      (savePreset.on s typed).2.1.store.catalogue.Ascending ∧
      (savePreset.on s blocked).1 = .ok (.overwritten "c" false) ∧
      (savePreset.on s blocked).2.1.store.dirty = true ∧
      (savePreset.on s blocked).2.1.selected = some "c" := by
  intro setting store s world typed blocked
  have ho : s.state.isFinal = false := rfl
  have htyped : Named typed.prompter s.selected 2 (some "b") :=
    ⟨by decide +kernel, by decide +kernel, by decide +kernel⟩
  have hblocked : Named blocked.prompter s.selected 1 (some "c") :=
    ⟨by decide +kernel, by decide +kernel, by decide +kernel⟩
  obtain ⟨count, answer, -, hnamed, -, hname⟩ := saving_of_answers typed ho
  obtain ⟨rfl, rfl⟩ := hnamed.unique htyped
  obtain ⟨hnew, -⟩ := hname "b" rfl
  have hkept := hnew (by decide +kernel)
  obtain ⟨count, answer, -, hnamed, -, hname⟩ := saving_of_answers blocked ho
  obtain ⟨rfl, rfl⟩ := hnamed.unique hblocked
  obtain ⟨-, -, hheld⟩ := hname "c" rfl
  have hkept' := hheld (by decide +kernel) (by decide +kernel)
  have hsave : s.store.savable typed = true := by decide +kernel
  have hsave' : s.store.savable blocked = false := by decide +kernel
  refine ⟨ho, ?_, ?_, ?_, ?_, ?_, hkept'.selected⟩
  · rw [hkept.answer, hsave]
    decide +kernel
  · rw [(hkept.written hsave).2.errors]
    decide +kernel
  · exact (hkept.received.fresh (by decide +kernel)).1
  · rw [hkept'.answer, hsave']
    decide +kernel
  · rw [hkept'.dirty, hsave']
    rfl

end Relabel.Session
