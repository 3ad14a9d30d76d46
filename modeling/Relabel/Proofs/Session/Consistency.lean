import Relabel.Proofs.Find.Substitution
import Relabel.Proofs.Session.Run

/-!
# The preview agrees with the fields

A session keeps its pattern, its replacements, its proposed names and its state beside its two
fields, and its operations compute them anew along different ways. While it is open they are always
what the fields say, so that nothing of the way to the fields is left in the proposed names.

* `Session.UpToDate`: the invariant, which every edit preserves (`Session.UpToDate.edit`).
* `Session.Consistent`: what it says of each item of the selection.
* `Session.consistent_of_reachable`: every open session is consistent, and the fields determine the
  proposed names.
-/

namespace Relabel

theorem sanitize_sanitize (s : String) : sanitize (sanitize s) = sanitize s := by
  unfold sanitize
  rw [String.toList_ofList, List.map_map]
  refine congrArg String.ofList (List.map_congr_left fun c _ => ?_)
  dsimp only [Function.comp]
  split <;> rfl

namespace Find.Pattern

theorem isEmpty_of_compile [Find.Engine] {find : String} {mode : Mode} {p : Pattern}
    (h : compile find mode = .ok p) : p.isEmpty = true ↔ find = "" := by
  rw [eq_of_compile h]
  exact String.isEmpty_iff

end Find.Pattern

namespace Resolver

@[simp] theorem length_resolveAll (r : Resolver) (template : String) :
    (r.resolveAll template).length = r.size := by
  simp [resolveAll]

theorem size_ofSelection (setting : Setting) (selection : Selection) (lookup : Lookup) :
    (ofSelection setting selection lookup).size = selection.size := by
  simp [ofSelection, size, Selection.size]

/-- A member's replacement is made with the tokens of that member. -/
theorem getElem?_resolveAll {setting : Setting} {selection : Selection} {lookup : Lookup} {i : Nat}
    {item : Item} (h : selection.members[i]? = some item) (template : String) :
    ((ofSelection setting selection lookup).resolveAll template)[i]? =
      some (Token.applyAll (Token.merge setting.tokens (lookup.tokens item)) template) := by
  obtain ⟨hi, rfl⟩ := List.getElem?_eq_some_iff.mp h
  simp [resolveAll, size, ofSelection, resolve, pool, own, hi]

end Resolver

namespace Session

variable {s s' : Session} {selection : Selection} {setting : Setting} {lookup : Lookup}
  {mode : Find.Mode}

/-! ## The invariant -/

/-- What is kept beside the fields is what the fields say. -/
structure UpToDate [Find.Engine] (s : Session) : Prop where
  pattern : Find.Pattern.compile s.find s.mode = .ok s.pattern
  template : sanitize s.replace = s.replace
  resolved : s.resolved = s.resolver.resolveAll s.replace
  proposed : s.proposed = propose s.pattern s.names s.resolved
  state : s.state = openState s.find s.replace

/-- What no edit touches. -/
def basis (s : Session) : Selection × Resolver × Find.Mode := (s.selection, s.resolver, s.mode)

theorem propose_of_isEmpty {p : Find.Pattern} (h : p.isEmpty = true) (names resolved : List String) :
    propose p names resolved = names :=
  if_pos h

theorem isFinal_openState (find replace : String) : (openState find replace).isFinal = false := by
  unfold openState
  split <;> rfl

theorem settled_of_open (h : s.state.isFinal = false) :
    s.settled = { s with state := openState s.find s.replace } := by
  unfold settled
  rw [h]
  rfl

/-- A find text that is set has been compiled. -/
theorem withFind_eq_ok [Find.Engine] {text : String} (h : s.withFind text = .ok s') :
    ∃ pattern, Find.Pattern.compile text s.mode = .ok pattern ∧
      s' = { s with pattern, find := text }.refreshed.settled := by
  unfold withFind at h
  cases hp : Find.Pattern.compile text s.mode with
  | error e => exact nomatch hp ▸ h
  | ok pattern =>
    rw [hp] at h
    cases h
    exact ⟨pattern, rfl, rfl⟩

/-- Setting the template is computing the proposed names anew, done or put off. -/
theorem withReplace_eq (s : Session) (text : String) : ∃ proposed,
    s.withReplace text = { s with
      replace := sanitize text
      resolved := s.resolver.resolveAll (sanitize text)
      proposed }.settled ∧
    (s.proposed = propose s.pattern s.names s.resolved →
      proposed = propose s.pattern s.names (s.resolver.resolveAll (sanitize text))) := by
  unfold withReplace
  cases h : s.pattern.isEmpty with
  | true =>
    -- Nothing is found, so that the names stand whatever the replacements are.
    refine ⟨s.proposed, by simp only [h, if_true], fun hp => ?_⟩
    rw [hp, propose_of_isEmpty h, propose_of_isEmpty h]
  | false =>
    refine ⟨_, ?_, fun _ => rfl⟩
    simp only [h]
    rfl

namespace UpToDate

variable [Find.Engine]

/-- Only an open session is up to date. -/
theorem isFinal (h : s.UpToDate) : s.state.isFinal = false :=
  h.state ▸ isFinal_openState ..

theorem blank (selection : Selection) (setting : Setting) (lookup : Lookup) (store : Store)
    (mode : Find.Mode) : (blank selection setting lookup store mode).UpToDate where
  pattern := rfl
  template := (by decide : sanitize "" = "")
  resolved := rfl
  proposed := rfl
  state := rfl

theorem withFind (h : s.UpToDate) {text : String} (hf : s.withFind text = .ok s') :
    s'.UpToDate ∧ s'.basis = s.basis := by
  obtain ⟨pattern, hp, rfl⟩ := withFind_eq_ok hf
  rw [settled_of_open]
  · exact ⟨⟨hp, h.template, h.resolved, rfl, rfl⟩, rfl⟩
  · exact h.isFinal

theorem withReplace (h : s.UpToDate) (text : String) :
    (s.withReplace text).UpToDate ∧ (s.withReplace text).basis = s.basis := by
  obtain ⟨proposed, hr, hp⟩ := withReplace_eq s text
  rw [hr, settled_of_open]
  · exact ⟨⟨h.pattern, sanitize_sanitize text, rfl, hp h.proposed, rfl⟩, rfl⟩
  · exact h.isFinal

/-- Each edit brings the proposals up to date. -/
theorem edit (h : s.UpToDate) (he : Edit s s') : s'.UpToDate ∧ s'.basis = s.basis := by
  cases he with
  | find hf => exact h.withFind hf
  | replace text => exact h.withReplace text
  | presets store selected =>
    exact ⟨⟨h.pattern, h.template, h.resolved, h.proposed, h.state⟩, rfl⟩

theorem edits (h : s.UpToDate) (he : Edits s s') : s'.UpToDate ∧ s'.basis = s.basis := by
  induction he with
  | refl => exact ⟨h, rfl⟩
  | tail _ he ih =>
    obtain ⟨hu, hb⟩ := ih
    obtain ⟨hu', hb'⟩ := hu.edit he
    exact ⟨hu', hb'.trans hb⟩

/-- An open session at the end of a run is what its fields say. -/
theorem of_reachable (h : Reachable selection setting lookup mode s)
    (ho : s.state.isFinal = false) :
    s.UpToDate ∧ s.basis = (selection, .ofSelection setting selection lookup, mode) := by
  obtain ⟨store, he⟩ := h.edits ho
  exact (UpToDate.blank selection setting lookup store mode).edits he

end UpToDate

/-! ## Item by item -/

/-- The pattern is that of the find text, the template holds nothing illegal, each item's
replacement and new name are made from them, and the state tells whether there is anything to do. -/
structure Consistent [Find.Engine] (selection : Selection) (setting : Setting) (lookup : Lookup)
    (mode : Find.Mode) (s : Session) : Prop where
  selection_eq : s.selection = selection
  mode_eq : s.mode = mode
  pattern : Find.Pattern.compile s.find mode = .ok s.pattern
  template : sanitize s.replace = s.replace
  length_resolved : s.resolved.length = selection.size
  length_proposed : s.proposed.length = selection.size
  resolved {i : Nat} {item : Item} : selection.members[i]? = some item → s.resolved[i]? =
    some (Token.applyAll (Token.merge setting.tokens (lookup.tokens item)) s.replace)
  proposed {i : Nat} {item : Item} {new : String} : selection.members[i]? = some item →
    s.resolved[i]? = some new →
      s.proposed[i]? = some (if s.find = "" then item.name else s.pattern.apply item.name new)
  state : s.state = if s.find = "" ∧ s.replace = "" then .idle else .previewing

theorem openState_eq (find replace : String) :
    openState find replace = if find = "" ∧ replace = "" then .idle else .previewing := by
  simp [openState]

theorem length_propose {p : Find.Pattern} {names resolved : List String}
    (h : resolved.length = names.length) : (propose p names resolved).length = names.length := by
  unfold propose
  split
  · rfl
  · rw [List.length_zipWith, h, Nat.min_self]

theorem getElem?_propose {p : Find.Pattern} {names resolved : List String} {i : Nat}
    {name new : String} (hn : names[i]? = some name) (hr : resolved[i]? = some new) :
    (propose p names resolved)[i]? = some (if p.isEmpty then name else p.apply name new) := by
  unfold propose
  split
  · exact hn
  · rw [List.getElem?_zipWith, hn, hr]

/-- A session that is up to date is consistent in every item. -/
theorem UpToDate.consistent [Find.Engine] (h : s.UpToDate)
    (hb : s.basis = (selection, .ofSelection setting selection lookup, mode)) :
    s.Consistent selection setting lookup mode := by
  obtain ⟨rfl, hr, rfl⟩ : s.selection = selection ∧
      s.resolver = .ofSelection setting selection lookup ∧ s.mode = mode := by
    simpa [basis] using hb
  have hl : s.resolved.length = s.selection.size := by
    rw [h.resolved, hr, Resolver.length_resolveAll, Resolver.size_ofSelection]
  have hn : s.names.length = s.selection.size := List.length_map _
  refine ⟨rfl, rfl, h.pattern, h.template, hl, ?_, ?_, ?_, ?_⟩
  · rw [h.proposed, length_propose (hl.trans hn.symm), hn]
  · intro i item hi
    rw [h.resolved, hr, Resolver.getElem?_resolveAll hi]
  · intro i item new hi hnew
    have hname : s.names[i]? = some item.name := by
      rw [names, Selection.names, List.getElem?_map, hi]
      rfl
    rw [h.proposed, getElem?_propose hname hnew]
    simp only [Find.Pattern.isEmpty_of_compile h.pattern]
  · rw [h.state, openState_eq]

/-- Two sessions over one selection with the same fields propose the same names. -/
theorem UpToDate.proposed_congr [Find.Engine] (h : s.UpToDate) (h' : s'.UpToDate)
    (hb : s'.basis = s.basis) (hf : s'.find = s.find) (hr : s'.replace = s.replace) :
    s'.proposed = s.proposed := by
  obtain ⟨hs, hres, hm⟩ : s'.selection = s.selection ∧ s'.resolver = s.resolver ∧
      s'.mode = s.mode := by
    simpa [basis] using hb
  have hp : s'.pattern = s.pattern := by
    have := h'.pattern
    rw [hf, hm, h.pattern] at this
    exact (Except.ok.inj this).symm
  rw [h'.proposed, h.proposed, h'.resolved, h.resolved, hp, hres, hr, names, names, hs]

/-- Whatever a user does with a session, as long as it is open it is consistent; and any other run
over the selection that leads to the same fields leads to the same proposed names. -/
theorem consistent_of_reachable [Find.Engine] (h : Reachable selection setting lookup mode s)
    (ho : s.state.isFinal = false) :
    s.Consistent selection setting lookup mode ∧
      ∀ s', Reachable selection setting lookup mode s' → s'.state.isFinal = false →
        s'.find = s.find → s'.replace = s.replace → s'.proposed = s.proposed := by
  obtain ⟨hu, hb⟩ := UpToDate.of_reachable h ho
  refine ⟨hu.consistent hb, fun s' h' ho' hf hr => ?_⟩
  obtain ⟨hu', hb'⟩ := UpToDate.of_reachable h' ho'
  exact hu.proposed_congr hu' (hb'.trans hb.symm) hf hr

attribute [local instance] Find.Engine.boundless in
/-- The fields are taken from a preset that is then overwritten and not deleted: neither time can
the file be written. -/
theorem consistent_of_reachable_unwritable :
    let log : Item := .listed "sh010" .clip (.ok (some "log")) false
    let gone : Item := .listed "sh020" .clip (.error (.generic "gone")) true
    let selection : Selection := ⟨[log, .listed "cut" .transition (.ok none) false, gone],
      [.transition]⟩
    let setting : Setting := ⟨⟨2024, 2, 21, 15, 7, 0⟩, "feature", "kieran"⟩
    ∃ s, Reachable selection setting .colourSpace .legacy s ∧ s.state.isFinal = false ∧
      s.proposed = ["sx_log10", "sx_20"] ∧
      s.Consistent selection setting .colourSpace .legacy ∧
        ∀ s', Reachable selection setting .colourSpace .legacy s' → s'.state.isFinal = false →
          s'.find = s.find → s'.replace = s.replace → s'.proposed = s.proposed := by
  intro log gone selection setting
  let store : Store := ⟨.ofString "p", ⟨"", "", [⟨"user", "s", "<user>_"⟩]⟩, false⟩
  let w : World := ⟨⟨[], 0⟩, [], [], setting.now, .scripted [some " ", some "user"] [true, true] [],
    [], 0⟩
  let steps : List Step := [⟨id, .setReplace "x|<colour space>"⟩, ⟨id, .savePreset⟩,
    ⟨id, .deletePreset⟩, ⟨fun w => { w with disk := .blank }, .selectPreset "gone"⟩,
    ⟨id, .setFind "h0"⟩]
  have h : Reachable selection setting .colourSpace .legacy _ := ⟨store, w, _, _, steps, rfl, rfl⟩
  refine ⟨_, h, ?_, ?_, consistent_of_reachable h ?_⟩ <;> decide +kernel

end Session
end Relabel
