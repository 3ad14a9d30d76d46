import Relabel.Proofs.Session.Outcomes
import Relabel.Proofs.Token.Merge
import Relabel.Proofs.Token.Placeholder

/-!
# Where illegal characters come from

A replace template holds no illegal characters when it is put to use, but the texts of the tokens
that are put into it may, and so may the names that a pattern is applied to. No other way leads into
a replacement or into a new name.

* `Text.mem_of_mem_replaceAll`, `Token.mem_of_mem_applyAll`, `Find.Pattern.mem_of_mem_apply`: each
  way of replacing brings in what is put and keeps what was there.
* `Session.Sourced`: what is known of the characters of each member.
* `Session.Traced`: the invariant of a session, up to its end and beyond.
* `Session.illegal_of_reachable`: what holds in every session that can be reached.
-/

namespace Relabel

/-! ## Replacing -/

namespace Text

variable {w r s : List Char} {c : Char} {k : Nat}

theorem mem_of_mem_replaceFrom (h : c ∈ replaceFrom w r k s) : c ∈ s ∨ c ∈ r := by
  fun_induction replaceFrom w r k s with
  | case1 => cases h
  | case2 k d s ih => exact (ih h).imp (List.mem_cons_of_mem d) id
  | case3 d s hp ih =>
    rcases List.mem_append.mp h with h | h
    · exact .inr h
    · exact (ih h).imp (List.mem_cons_of_mem d) id
  | case4 d s hp ih =>
    rcases List.mem_cons.mp h with rfl | h
    · exact .inl List.mem_cons_self
    · exact (ih h).imp (List.mem_cons_of_mem d) id

theorem mem_of_mem_replaceAll (h : c ∈ replaceAll w r s) : c ∈ s ∨ c ∈ r := by
  cases w with
  | nil =>
    rcases List.mem_append.mp h with h | h
    · exact .inr h
    · obtain ⟨d, hd, hc⟩ := List.mem_flatMap.mp h
      rcases List.mem_cons.mp hc with rfl | hc
      · exact .inl hd
      · exact .inr hc
  | cons d w => exact mem_of_mem_replaceFrom h

theorem isDigit_of_mem_padNat {n k : Nat} (h : c ∈ (padNat n k).toList) : c.isDigit = true := by
  simp only [padNat, String.toList_ofList, List.mem_append, List.mem_replicate] at h
  rcases h with ⟨-, rfl⟩ | h
  · rfl
  · exact Nat.isDigit_of_mem_toDigits (by decide) (by decide) h

end Text

/-! ## Tokens -/

namespace Token

variable {pool : List Token} {t : Token} {s : String} {c : Char}

/-- The character stands in the text of a token of the pool. -/
def Supplies (pool : List Token) (c : Char) : Prop := ∃ t ∈ pool, c ∈ t.text.toList

theorem mem_of_mem_apply (h : c ∈ (t.apply s).toList) : c ∈ s.toList ∨ c ∈ t.text.toList := by
  rw [apply, Text.replace, String.toList_ofList] at h
  exact Text.mem_of_mem_replaceAll h

theorem mem_of_mem_applyAll (h : c ∈ (applyAll pool s).toList) :
    c ∈ s.toList ∨ Supplies pool c := by
  induction pool generalizing s with
  | nil => exact .inl h
  | cons t pool ih =>
    rw [applyAll_cons] at h
    rcases ih h with h | ⟨u, hu, hc⟩
    · exact (mem_of_mem_apply h).imp id fun hc => ⟨t, List.mem_cons_self, hc⟩
    · exact .inr ⟨u, List.mem_cons_of_mem t hu, hc⟩

end Token

/-! ## Illegal characters -/

theorem isIllegal_of_mem_sanitize {s : String} {c : Char} (h : c ∈ (sanitize s).toList) :
    isIllegal c = false := by
  rw [sanitize, String.toList_ofList] at h
  obtain ⟨d, -, rfl⟩ := List.mem_map.mp h
  cases hd : isIllegal d with
  | true => rw [if_pos rfl]; decide
  | false => rwa [if_neg nofun]

theorem isDigit_of_isIllegal {c : Char} (h : isIllegal c = true) : c.isDigit = false := by
  have hall : ("`|/\\+*';".toList.all fun c => !c.isDigit) = true := by decide
  simpa using List.all_eq_true.mp hall c (List.contains_iff_mem.mp h)

/-- The texts of the clock hold no illegal characters, but for the sign of a year. -/
theorem Setting.mem_of_mem_text {setting : Setting} {t : Token} {c : Char}
    (ht : t ∈ setting.tokens) (hc : c ∈ t.text.toList) (hi : isIllegal c = true) :
    c ∈ setting.project.toList ∨ c ∈ setting.user.toList ∨ c ∈ setting.now.yearText.toList := by
  have hnum {n k : Nat} (hc : c ∈ (Text.padNat n k).toList) : False := by
    have := isDigit_of_isIllegal hi
    rw [Text.isDigit_of_mem_padNat hc] at this
    cases this
  have hhalf {s : String} (hs : s ∈ ["am", "pm", "AM", "PM"]) (hc : c ∈ s.toList) : False := by
    have hall : (["am", "pm", "AM", "PM"].all fun s => s.toList.all fun c => !isIllegal c) = true := by
      decide
    have := List.all_eq_true.mp (List.all_eq_true.mp hall s hs) c hc
    rw [hi] at this
    cases this
  simp only [tokens, List.mem_cons, List.not_mem_nil, or_false] at ht
  obtain rfl | rfl | rfl | rfl | rfl | rfl | rfl | rfl | rfl | rfl | rfl := ht
  · exact (hhalf (by split <;> decide) hc).elim
  · exact (hhalf (by split <;> decide) hc).elim
  · exact (hnum hc).elim
  · exact (hnum hc).elim
  · exact (hnum hc).elim
  · exact (hnum hc).elim
  · exact (hnum hc).elim
  · exact .inl hc
  · exact .inr (.inl hc)
  · exact .inr (.inr hc)
  · exact (hnum hc).elim

/-- The text of a token that is looked up is the item's context. -/
theorem Lookup.mem_of_mem_text {lookup : Lookup} {item : Item} {t : Token} {c : Char}
    (ht : t ∈ lookup.tokens item) (hc : c ∈ t.text.toList) :
    ∃ text, item.context = .ok (some text) ∧ c ∈ text.toList := by
  unfold Lookup.tokens at ht
  split at ht
  · cases ht
  · obtain rfl := List.mem_singleton.mp ht
    match hcontext : item.context with
    | .error e =>
      rw [hcontext] at hc
      cases hc
    | .ok Option.none =>
      rw [hcontext] at hc
      cases hc
    | .ok (some text) =>
      rw [hcontext] at hc
      exact ⟨text, rfl, hc⟩

/-! ## Patterns -/

namespace Find

theorem mem_of_kept_mem_cut {k : Nat} {closed : Bool} {s : List Char} {m : Lengths} {c : Char}
    (h : .kept c ∈ cut k closed s m) : c ∈ s := by
  fun_induction cut k closed s m with
  | case1 closed k d s e m ih => exact List.mem_cons_of_mem d (ih h)
  | case2 closed d s k m ih =>
    rcases List.mem_cons.mp h with h | h
    · cases h
    · exact List.mem_cons_of_mem d (ih h)
  | case3 d s m ih =>
    rcases List.mem_cons.mp h with h | h
    · cases h
    rcases List.mem_cons.mp h with h | h
    · cases h
      exact List.mem_cons_self
    · exact List.mem_cons_of_mem d (ih h)
  | case4 closed d s e m _ _ ih =>
    rcases List.mem_cons.mp h with h | h
    · cases h
      exact List.mem_cons_self
    · exact List.mem_cons_of_mem d (ih h)
  | case5 => cases List.mem_singleton.mp h
  | case6 => cases h

namespace Pattern

theorem mem_of_kept_mem_parts {p : Pattern} {name : List Char} {c : Char}
    (h : .kept c ∈ p.parts name) : c ∈ name := by
  unfold parts at h
  split at h
  · obtain ⟨d, hd, he⟩ := List.mem_map.mp h
    cases he
    exact hd
  · exact mem_of_kept_mem_cut h

theorem mem_of_mem_apply {p : Pattern} {name r : String} {c : Char}
    (h : c ∈ (p.apply name r).toList) : c ∈ name.toList ∨ c ∈ r.toList := by
  rw [apply, String.toList_ofList] at h
  obtain ⟨part, hpart, hc⟩ := List.mem_flatMap.mp h
  cases part with
  | kept d =>
    obtain rfl := List.mem_singleton.mp hc
    exact .inl (mem_of_kept_mem_parts hpart)
  | found t => exact .inr hc

end Pattern
end Find

/-! ## Sessions -/

namespace Session

variable {s s' : Session} {selection : Selection} {setting : Setting} {lookup : Lookup}
  {mode : Find.Mode} {item : Item} {i : Nat} {w : World}

/-- All tokens of an item. -/
def poolOf (setting : Setting) (lookup : Lookup) (item : Item) : List Token :=
  Token.merge setting.tokens (lookup.tokens item)

/-- What is known of the illegal characters of a member: of its replacement, its proposed name and
its name. `item` is the member as it was at the start. -/
structure Sourced (pool : List Token) (item : Item) (resolved proposed name : String) : Prop where
  resolved {c : Char} : isIllegal c = true → c ∈ resolved.toList → Token.Supplies pool c
  proposed {c : Char} : isIllegal c = true → c ∈ proposed.toList →
    c ∈ name.toList ∨ Token.Supplies pool c
  name {c : Char} : isIllegal c = true → c ∈ name.toList →
    c ∈ item.name.toList ∨ Token.Supplies pool c

/-- What is known of the characters of all members of a session. -/
def AllSourced (selection : Selection) (setting : Setting) (lookup : Lookup) (s : Session) : Prop :=
  ∀ (i : Nat) (item : Item), selection.members[i]? = some item → ∃ resolved proposed name,
    s.resolved[i]? = some resolved ∧ s.proposed[i]? = some proposed ∧ s.names[i]? = some name ∧
      Sourced (poolOf setting lookup item) item resolved proposed name

theorem getElem?_names (h : s.selection.members[i]? = some item) : s.names[i]? = some item.name := by
  rw [names, Selection.names, List.getElem?_map, h]
  rfl

/-- While a session is open the names are the old ones. -/
theorem Consistent.allSourced [Find.Engine] (h : s.Consistent selection setting lookup mode) :
    AllSourced selection setting lookup s := by
  intro i item hi
  have hresolved := h.resolved hi
  have hname := getElem?_names (h.selection_eq ▸ hi)
  have hsource {c : Char} (hc : isIllegal c = true)
      (hm : c ∈ (Token.applyAll (poolOf setting lookup item) s.replace).toList) :
      Token.Supplies (poolOf setting lookup item) c := by
    refine (Token.mem_of_mem_applyAll hm).resolve_left fun hm => ?_
    rw [← h.template] at hm
    exact Bool.false_ne_true ((isIllegal_of_mem_sanitize hm).symm.trans hc)
  refine ⟨_, _, _, hresolved, h.proposed hi hresolved, hname, hsource, fun hc hm => ?_,
    fun _ hm => .inl hm⟩
  split at hm
  · exact .inl hm
  · exact (Find.Pattern.mem_of_mem_apply hm).imp id (hsource hc)

/-- A member that has been given its proposed name has it, and every other one has kept its name. -/
theorem AllSourced.confirm (h : AllSourced selection setting lookup s) (hs : s.selection = selection)
    (hl : s.proposed.length = s.selection.size) (ho : s.state.isFinal = false) (host : Host)
    (w : World) : AllSourced selection setting lookup ((Session.confirm host).on s w).2.1 := by
  intro i item hi
  obtain ⟨resolved, proposed, name, hr, hp, hn, hsource⟩ := h i item hi
  have hitem : s.selection.members[i]? = some item := hs ▸ hi
  obtain rfl : name = item.name := Option.some.inj (hn.symm.trans (getElem?_names hitem))
  obtain ⟨outcomes, -, -, -, hdealt⟩ := outcomes_of_open hl ho host w
  obtain ⟨new, item', outcome, hnew, hafter, -, hd⟩ := hdealt i item hitem
  obtain rfl : new = proposed := Option.some.inj (hnew.symm.trans hp)
  have hkept : ((Session.confirm host).on s w).2.1.resolved = s.resolved ∧
      ((Session.confirm host).on s w).2.1.proposed = s.proposed := by
    rw [on_confirm host w ho]
    exact ⟨rfl, rfl⟩
  refine ⟨resolved, new, item'.name, hkept.1 ▸ hr, hkept.2 ▸ hp, getElem?_names hafter, ?_⟩
  rw [hd.name_eq]
  split
  · exact ⟨hsource.resolved, fun _ hm => .inl hm, hsource.proposed⟩
  · exact hsource

theorem AllSourced.cancel (h : AllSourced selection setting lookup s) (ho : s.state.isFinal = false)
    (w : World) : AllSourced selection setting lookup (Session.cancel.on s w).2.1 := by
  intro i item hi
  obtain ⟨resolved, proposed, name, hr, hp, hn, hsource⟩ := h i item hi
  rw [on_cancel w ho]
  exact ⟨resolved, name, name, hr, hn, hn, hsource.resolved, fun _ hm => .inl hm, hsource.name⟩

/-- What every operation preserves: the illegal characters of the members are accounted for, and an
open session is what its fields say. -/
structure Traced [Find.Engine] (selection : Selection) (setting : Setting) (lookup : Lookup)
    (mode : Find.Mode) (s : Session) : Prop where
  upToDate : s.state.isFinal = false →
    s.UpToDate ∧ s.basis = (selection, .ofSelection setting selection lookup, mode)
  allSourced : AllSourced selection setting lookup s

namespace Traced

theorem of_upToDate [Find.Engine] (hu : s.UpToDate)
    (hb : s.basis = (selection, .ofSelection setting selection lookup, mode)) :
    Traced selection setting lookup mode s :=
  ⟨fun _ => ⟨hu, hb⟩, (hu.consistent hb).allSourced⟩

/-- Every operation leaves the illegal characters accounted for. -/
theorem perform [Find.Engine] (h : Traced selection setting lookup mode s) (o : Operation)
    (w : World) : Traced selection setting lookup mode (o.perform s w).1 := by
  cases ho : s.state.isFinal with
  | true =>
    rw [o.perform_of_final w ho]
    exact h
  | false =>
    obtain ⟨hu, hb⟩ := h.upToDate ho
    cases he : o.isEnd with
    | false =>
      obtain ⟨hu', hb'⟩ := hu.edits (o.edits he s w)
      exact of_upToDate hu' (hb'.trans hb)
    | true =>
      have hc := hu.consistent hb
      refine ⟨fun hopen => ?_, ?_⟩
      · rw [o.isFinal_of_isEnd he] at hopen
        cases hopen
      cases o with
      | confirm host =>
        exact h.allSourced.confirm hc.selection_eq (hc.selection_eq ▸ hc.length_proposed) ho host w
      | cancel => exact h.allSourced.cancel ho w
      | _ => cases he

/-- Every run leaves them accounted for. -/
theorem play [Find.Engine] (steps : List Step) {r : Session × World}
    (h : Traced selection setting lookup mode r.1) :
    Traced selection setting lookup mode (play steps r).1 := by
  induction steps generalizing r with
  | nil => exact h
  | cons t ts ih => exact ih (h.perform t.operation (t.meanwhile r.2))

theorem of_reachable [Find.Engine] (h : Reachable selection setting lookup mode s) :
    Traced selection setting lookup mode s := by
  obtain ⟨store, w, s₀, w₀, steps, hb, rfl⟩ := h
  obtain ⟨hu, hbasis⟩ :=
    (UpToDate.blank selection setting lookup store mode).edits (edits_of_begin hb)
  exact play steps (of_upToDate hu hbasis)

end Traced

/-- An illegal character that a token supplies comes from the project, the user, the year or the
item's own text. -/
theorem mem_of_supplies {c : Char} (h : Token.Supplies (poolOf setting lookup item) c)
    (hc : isIllegal c = true) :
    c ∈ setting.project.toList ∨ c ∈ setting.user.toList ∨ c ∈ setting.now.yearText.toList ∨
      ∃ text, item.context = .ok (some text) ∧ c ∈ text.toList := by
  obtain ⟨t, ht, hm⟩ := h
  rcases Token.mem_of_mem_merge ht with ht | ht
  · rcases Setting.mem_of_mem_text ht hm hc with h | h | h
    · exact .inl h
    · exact .inr (.inl h)
    · exact .inr (.inr (.inl h))
  · exact .inr (.inr (.inr (Lookup.mem_of_mem_text ht hm)))

/-- Whatever has been done with a session, an illegal character in the replacement of a member
stands in the text of one of its tokens, and one in its proposed name stands there or in the name
that it has. No renaming has brought one into a name that the tokens do not hold; of the clock's
texts that of the year is the only one that can. -/
theorem illegal_of_reachable [Find.Engine] (h : Reachable selection setting lookup mode s)
    (hi : selection.members[i]? = some item) :
    ∃ resolved proposed name, s.resolved[i]? = some resolved ∧ s.proposed[i]? = some proposed ∧
      s.names[i]? = some name ∧ ∀ c, isIllegal c = true →
        let supplied := ∃ t ∈ Token.merge setting.tokens (lookup.tokens item), c ∈ t.text.toList
        (c ∈ resolved.toList → supplied) ∧
        (c ∈ proposed.toList → c ∈ name.toList ∨ supplied) ∧
        (c ∈ name.toList → c ∈ item.name.toList ∨ supplied) ∧
        (c ∉ setting.project.toList → c ∉ setting.user.toList → c ∉ setting.now.yearText.toList →
          (∀ text, item.context = .ok (some text) → c ∉ text.toList) →
          c ∈ proposed.toList ∨ c ∈ name.toList → c ∈ item.name.toList) := by
  obtain ⟨resolved, proposed, name, hr, hp, hn, hsource⟩ :=
    (Traced.of_reachable h).allSourced i item hi
  refine ⟨resolved, proposed, name, hr, hp, hn, fun c hc => ⟨hsource.resolved hc,
    hsource.proposed hc, hsource.name hc, fun hproject huser hyear hcontext hm => ?_⟩⟩
  have hfree : ¬ Token.Supplies (poolOf setting lookup item) c := by
    intro hs
    rcases mem_of_supplies hs hc with h | h | h | ⟨text, ht, h⟩
    · exact hproject h
    · exact huser h
    · exact hyear h
    · exact hcontext text ht h
  have hname (hm : c ∈ name.toList) : c ∈ item.name.toList := (hsource.name hc hm).resolve_right hfree
  rcases hm with hm | hm
  · exact hname ((hsource.proposed hc hm).resolve_right hfree)
  · exact hname hm

attribute [local instance] Find.Engine.boundless in
/-- A template with illegal characters is saved over a preset and read back from it, the session is
confirmed, and what is done afterwards is refused. -/
theorem illegal_of_reachable_confirmed :
    let item : Item := .listed "a+b" .clip (.ok (some "l/g")) false
    let selection : Selection := .ofItems [item]
    let setting : Setting := ⟨⟨10000, 2, 21, 15, 7, 0⟩, "feature", "k;m"⟩
    ∃ s, Reachable selection setting .colourSpace .legacy s ∧ selection.members[0]? = some item ∧
      s.state = .confirmed ∧ s.replace = "<user>_<colour space>_" ∧
      s.resolved = ["k;m_l/g_"] ∧ s.names = ["a+k;m_l/g_"] ∧
      ∀ c, isIllegal c = true → c ∈ "a+k;m_l/g_".toList → c ∈ "a+b".toList ∨
        ∃ t ∈ Token.merge setting.tokens (Lookup.colourSpace.tokens item), c ∈ t.text.toList := by
  intro item selection setting
  let store : Store := ⟨.ofString "p", ⟨"", "", [⟨"x", "b", "*"⟩]⟩, false⟩
  let w : World := ⟨⟨[], 0⟩, [], [], setting.now, .scripted [some "x"] [true] [], [], 0⟩
  let steps : List Step := [⟨id, .setReplace "<user>|<colour space>*"⟩, ⟨id, .savePreset⟩,
    ⟨id, .setReplace "+"⟩, ⟨id, .selectPreset "x"⟩, ⟨id, .confirm .counting⟩,
    ⟨id, .setReplace "<YYYY>"⟩]
  obtain ⟨s, h, hstate, hreplace, hresolved, hnames⟩ :
      ∃ s, Reachable selection setting .colourSpace .legacy s ∧ s.state = .confirmed ∧
        s.replace = "<user>_<colour space>_" ∧ s.resolved = ["k;m_l/g_"] ∧
        s.names = ["a+k;m_l/g_"] := by
    refine ⟨_, ⟨store, w, _, _, steps, rfl, rfl⟩, ?_⟩
    decide +kernel
  have hi : selection.members[0]? = some item := rfl
  obtain ⟨_, _, name, -, -, hn, hsource⟩ := illegal_of_reachable h hi
  obtain rfl : "a+k;m_l/g_" = name := by simpa [hnames] using hn
  exact ⟨s, h, hi, hstate, hreplace, hresolved, hnames, fun c hc => (hsource c hc).2.2.1⟩

end Session
end Relabel
