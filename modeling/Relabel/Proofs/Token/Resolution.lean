import Relabel.Proofs.Token.Merge
import Relabel.Proofs.Token.Placeholder
import Relabel.Token.Resolver

/-!
# Resolved templates

What the texts of a run's tokens have to be like for a resolved template to be left alone when it is
resolved again.

* `Resolver.pool_ofSelection`: a member's own token follows those that all members share.
* `Resolver.distinct_pool`: no two placeholders of a pool overlap.
* `Token.not_arisesAround_of_isNumeral`: what stands for a part of the moment brings no placeholder
  about.
* `Resolver.resolve_settled`: when a resolved template holds no placeholder, and what follows.
-/

namespace Relabel

/-! ## Numerals -/

namespace Text

/-- A digit or a sign. -/
def isNumeralChar (c : Char) : Bool := c.isDigit || c == '+' || c == '-'

/-- Some digits and signs. -/
structure IsNumeral (s : String) : Prop where
  ne_nil : s.toList ≠ []
  chars : ∀ c ∈ s.toList, isNumeralChar c = true

theorem isNumeral_padNat (n k : Nat) : IsNumeral (padNat n k) where
  ne_nil := by simp [padNat, Nat.toDigits_ne_nil]
  chars c hc := by
    simp only [padNat, String.toList_ofList, List.mem_append, List.mem_replicate] at hc
    rcases hc with ⟨-, rfl⟩ | hc
    · rfl
    · have hdigit := Nat.isDigit_of_mem_toDigits (by decide) (by decide) hc
      simp [isNumeralChar, hdigit]

theorem IsNumeral.signed {s sign : String} (h : IsNumeral s) (hs : sign = "+" ∨ sign = "-") :
    IsNumeral (sign ++ s) where
  ne_nil := by simp [h.ne_nil]
  chars c hc := by
    rw [String.toList_append, List.mem_append] at hc
    rcases hc with hc | hc
    · rcases hs with rfl | rfl
      · obtain rfl := List.mem_singleton.mp hc
        rfl
      · obtain rfl := List.mem_singleton.mp hc
        rfl
    · exact h.chars c hc

end Text

theorem Moment.isNumeral_yearText (now : Moment) : Text.IsNumeral now.yearText := by
  have h := Text.isNumeral_padNat 4 now.year.natAbs
  unfold yearText
  split
  · exact h.signed (.inr rfl)
  · split
    · exact h.signed (.inl rfl)
    · exact h

/-! ## Tokens -/

namespace Token

variable {t : Token} {v : String}

/-- All that is a placeholder for some member. -/
def placeholders : List String :=
  ["<pp>", "<PP>", "<DD>", "<hh>", "<HH>", "<mm>", "<MM>", "<project>", "<user>", "<YYYY>", "<YY>",
    "<colour space>", "<shot name>"]

theorem bracketed_of_mem (h : t.placeholder ∈ placeholders) : Bracketed t.placeholder.toList := by
  have hall : ∀ p ∈ placeholders, Bracketed p.toList := by decide +kernel
  exact hall _ h

theorem not_arisesAround_of_half (hp : t.placeholder ∈ ["<pp>", "<PP>"])
    (hv : v ∈ ["pm", "am", "PM", "AM"]) : ¬ t.ArisesAround v := by
  have hall : ∀ p ∈ ["<pp>", "<PP>"], ∀ v ∈ ["pm", "am", "PM", "AM"],
      ¬ Text.Clashes v.toList p.toList := by
    decide +kernel
  exact hall _ hp _ hv

/-- Digits make up no placeholder: each has a letter beside its brackets. -/
theorem not_arisesAround_of_isNumeral (h : t.placeholder ∈ placeholders) (hv : Text.IsNumeral v) :
    ¬ t.ArisesAround v := by
  have hall : (placeholders.all fun p => !p.toList.any Text.isNumeralChar) = true := by
    decide +kernel
  have hp : t.placeholder.toList.any Text.isNumeralChar = false := by
    simpa using List.all_eq_true.mp hall _ h
  intro harises
  have hi := (bracketed_of_mem h).isInfix_of_clashes (fun hc => nomatch hv.chars _ hc)
    (fun hc => nomatch hv.chars _ hc) harises
  obtain ⟨c, hc⟩ := List.exists_mem_of_ne_nil _ hv.ne_nil
  exact List.any_eq_false.mp hp c (hi.subset hc) (hv.chars c hc)

end Token

/-! ## The pool of a member -/

namespace Resolver

variable (setting : Setting) (selection : Selection) (lookup : Lookup) (i : Nat)

/-- A member has no token of its own, or one of two. -/
theorem own_ofSelection :
    (ofSelection setting selection lookup).own i = [] ∨ ∃ t : Token,
      (ofSelection setting selection lookup).own i = [t] ∧
        ((t.label = "Colour Space" ∧ t.placeholder = "<colour space>") ∨
          (t.label = "Shot Name" ∧ t.placeholder = "<shot name>")) := by
  have h : (ofSelection setting selection lookup).own i =
      ((selection.members[i]?).map lookup.tokens).getD [] := by
    simp [own, ofSelection]
  rw [h]
  cases selection.members[i]? with
  | none => exact .inl rfl
  | some item =>
    cases lookup with
    | none => exact .inl rfl
    | colourSpace => exact .inr ⟨_, rfl, .inl ⟨rfl, rfl⟩⟩
    | shotName => exact .inr ⟨_, rfl, .inr ⟨rfl, rfl⟩⟩

theorem pool_ofSelection :
    (ofSelection setting selection lookup).pool i =
      setting.tokens ++ (ofSelection setting selection lookup).own i := by
  rw [pool]
  obtain h | ⟨t, h, ht⟩ := own_ofSelection setting selection lookup i
  · rw [h, List.append_nil]
    rfl
  · rw [h]
    refine Token.put_of_new ?_
    rcases ht with ⟨hl, -⟩ | ⟨hl, -⟩ <;> simp [hl, ofSelection, Setting.tokens]

theorem placeholders_pool :
    (((ofSelection setting selection lookup).pool i).map Token.placeholder).Sublist
      Token.placeholders := by
  rw [pool_ofSelection, List.map_append]
  have hown : (((ofSelection setting selection lookup).own i).map Token.placeholder).Sublist
      ["<colour space>", "<shot name>"] := by
    obtain h | ⟨t, h, ⟨-, hp⟩ | ⟨-, hp⟩⟩ := own_ofSelection setting selection lookup i
    · rw [h]
      exact List.nil_sublist _
    · rw [h, List.map_singleton, hp]
      decide
    · rw [h, List.map_singleton, hp]
      decide
  exact hown.append_left (setting.tokens.map Token.placeholder)

theorem placeholder_mem {t : Token} (h : t ∈ (ofSelection setting selection lookup).pool i) :
    t.placeholder ∈ Token.placeholders :=
  (placeholders_pool setting selection lookup i).subset (List.mem_map_of_mem h)

/-- The placeholders of a pool are bracketed, and no two of them are alike. -/
theorem distinct_pool : Token.Distinct ((ofSelection setting selection lookup).pool i) where
  bracketed _ ht := Token.bracketed_of_mem (placeholder_mem setting selection lookup i ht)
  nodup := (placeholders_pool setting selection lookup i).nodup (by decide +kernel)

end Resolver

/-! ## Harmless texts -/

/-- The texts that are no part of the moment bring no placeholder about that has been looked for
before they are put in. The project's name is put in by the eighth token, the user's by the ninth
and a member's own text by the last. -/
structure Setting.Harmless (setting : Setting) (own : List Token) : Prop where
  project : ∀ t ∈ setting.tokens.take 8, ¬ t.ArisesAround setting.project
  user : ∀ t ∈ setting.tokens.take 9, ¬ t.ArisesAround setting.user
  own : ∀ u ∈ own, ∀ t ∈ setting.tokens ++ own, ¬ t.ArisesAround u.text

namespace Resolver

variable (setting : Setting) (selection : Selection) (lookup : Lookup) (i : Nat)

theorem settles_pool_iff :
    Token.Settles ((ofSelection setting selection lookup).pool i) ↔
      setting.Harmless ((ofSelection setting selection lookup).own i) := by
  have hmem := fun t => placeholder_mem setting selection lookup i (t := t)
  have hown := own_ofSelection setting selection lookup i
  rw [pool_ofSelection] at hmem ⊢
  generalize (ofSelection setting selection lookup).own i = own at hmem hown ⊢
  constructor
  · intro h
    have hproject := h 7 ⟨"Project", "<project>", some setting.project⟩ rfl
    have huser := h 8 ⟨"User", "<user>", some setting.user⟩ rfl
    refine ⟨hproject, huser, ?_⟩
    rcases hown with rfl | ⟨u, rfl, -⟩
    · nofun
    · rintro _ (_ | ⟨_, ⟨⟩⟩)
      exact h 11 u rfl
  · rintro ⟨hproject, huser, hown'⟩ n u hn t ht
    have hnumeral {v : String} (hv : Text.IsNumeral v) : ¬ t.ArisesAround v :=
      Token.not_arisesAround_of_isNumeral (hmem t (List.mem_of_mem_take ht)) hv
    match n, hn with
    | 0, rfl =>
      obtain rfl := List.mem_singleton.mp ht
      refine Token.not_arisesAround_of_half (by simp) ?_
      show (if setting.now.isAfternoon then "pm" else "am") ∈ _
      split <;> simp
    | 1, rfl =>
      have hp : t.placeholder ∈ ["<pp>", "<PP>"] := List.mem_map_of_mem ht
      refine Token.not_arisesAround_of_half hp ?_
      show (if setting.now.isAfternoon then "PM" else "AM") ∈ _
      split <;> simp
    | 2, rfl => exact hnumeral (Text.isNumeral_padNat ..)
    | 3, rfl => exact hnumeral (Text.isNumeral_padNat ..)
    | 4, rfl => exact hnumeral (Text.isNumeral_padNat ..)
    | 5, rfl => exact hnumeral (Text.isNumeral_padNat ..)
    | 6, rfl => exact hnumeral (Text.isNumeral_padNat ..)
    | 7, rfl => exact hproject t ht
    | 8, rfl => exact huser t ht
    | 9, rfl => exact hnumeral setting.now.isNumeral_yearText
    | 10, rfl => exact hnumeral (Text.isNumeral_padNat ..)
    | n + 11, hn => exact hown' u (List.mem_of_getElem? hn) t (List.mem_of_mem_take ht)

/-- A resolved template holds no placeholder, whatever the template is, if and only if no text
brings one about where it is put in. A resolved template is then left alone when it is resolved
again. The text of a token is put in as it is if it brings none of the placeholders about that are
looked for later. -/
theorem resolve_settled (setting : Setting) (selection : Selection) (lookup : Lookup) (i : Nat) :
    let r := ofSelection setting selection lookup
    ((∀ template, ∀ t ∈ r.pool i, ¬ t.OccursIn (r.resolve i template)) ↔
        setting.Harmless (r.own i)) ∧
      (setting.Harmless (r.own i) →
        ∀ template, r.resolve i (r.resolve i template) = r.resolve i template) ∧
      ∀ l₁ t l₂, r.pool i = l₁ ++ t :: l₂ → (∀ u ∈ l₂, ¬ u.ArisesAround t.text) →
        ∀ a b, r.resolve i (a ++ t.placeholder ++ b) =
          r.resolve i a ++ t.text ++ r.resolve i b := by
  intro r
  have hpool : Token.Distinct (r.pool i) := distinct_pool setting selection lookup i
  have hsettles := settles_pool_iff setting selection lookup i
  refine ⟨hpool.settles_iff.trans hsettles, fun h => hpool.applyAll_applyAll (hsettles.mpr h), ?_⟩
  intro l₁ t l₂ hcut h a b
  unfold resolve
  rw [hcut] at hpool ⊢
  exact hpool.applyAll_insert h a b

/-- An item with a colour space, in a project with a plain name. -/
theorem resolve_settled_plain :
    let setting : Setting := ⟨⟨2024, 2, 21, 15, 7, 0⟩, "feature", "kieran"⟩
    let r := ofSelection setting (.ofItems [.listed "clip" .clip (.ok (some "ACEScg")) false])
      .colourSpace
    setting.Harmless (r.own 0) ∧
      (∀ template, r.resolve 0 (r.resolve 0 template) = r.resolve 0 template) ∧
      ∀ a b, r.resolve 0 (a ++ "<user>" ++ b) = r.resolve 0 a ++ "kieran" ++ r.resolve 0 b := by
  intro setting r
  have h : setting.Harmless (r.own 0) :=
    ⟨by decide +kernel, by decide +kernel, by decide +kernel⟩
  obtain ⟨-, hidem, hinsert⟩ := resolve_settled setting
    (.ofItems [.listed "clip" .clip (.ok (some "ACEScg")) false]) .colourSpace 0
  refine ⟨h, hidem h, fun a b => ?_⟩
  exact hinsert ((r.pool 0).take 8) ⟨"User", "<user>", some "kieran"⟩ ((r.pool 0).drop 9) rfl
    (by decide +kernel) a b

/-- A user who is called what stands for the project, a project that is called what stands for the
user, and an item without a shot name. -/
theorem resolve_not_idempotent :
    let now : Moment := ⟨2024, 2, 21, 15, 7, 0⟩
    let clips : Selection := .ofItems [.listed "clip" .clip (.ok none) false]
    let first := ofSelection ⟨now, "feature", "<project>"⟩ clips .none
    let second := ofSelection ⟨now, "<user>", "kieran"⟩ clips .none
    let third := ofSelection ⟨now, "feature", "kieran"⟩ clips .shotName
    (first.resolve 0 "<user>" = "<project>" ∧
        first.resolve 0 (first.resolve 0 "<user>") = "feature") ∧
      second.resolve 0 "<project>" = "kieran" ∧
      third.resolve 0 "<us<shot name>er>" = "<user>" ∧
        third.resolve 0 (third.resolve 0 "<us<shot name>er>") = "kieran" := by
  decide +kernel

end Resolver
end Relabel
