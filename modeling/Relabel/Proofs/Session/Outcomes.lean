import Relabel.Proofs.Item.Members
import Relabel.Proofs.Run.Fields
import Relabel.Proofs.Session.Ending

/-!
# What confirming comes to

The items of a session are paired with their proposed names and dealt with one after the other. An
item that refuses its new name keeps the old one, and the others are dealt with all the same.

* `Session.Dealt`: what becomes of one item when its turn comes.
* `Session.getElem?_renameAll`: each item is dealt with in the world that those before it have left.
* `Session.outcomes_of_confirm`: the outcomes of a confirmation, and the items after it.
-/

namespace Relabel

namespace Session

variable {s : Session} {item item' : Item} {new : String} {w w' : World} {outcome : Outcome}
  {pairs : List (Item × String)}

/-! ## One after the other -/

/-- What becomes of an item that is to get a name, when its turn comes. -/
inductive Dealt (item : Item) (new : String) (w : World) : Item → Outcome → Prop
  /-- It has the name already. -/
  | skipped : item.name = new → Dealt item new w item (.skipped item.name)
  /-- It takes the name. -/
  | renamed {item' : Item} : item.name ≠ new → (Act.on (item.rename new) w).1 = .ok item' →
    item'.name = new → Dealt item new w item' (.renamed item.name new)
  /-- It refuses the name, and stays as it is. -/
  | failed {e : Error} : item.name ≠ new → (Act.on (item.rename new) w).1 = .error e →
    Dealt item new w item (.failed item.name new e.message)

theorem dealt_renameItem (item : Item) (new : String) (w : World) :
    let r := (Deed.on (renameItem item new) w).1
    Dealt item new w r.1 r.2 := by
  rw [on_renameItem]
  split
  · next h => exact .skipped h
  next h =>
  cases hr : Act.on (item.rename new) w with
  | mk r w' =>
  have hr' := congrArg Prod.fst hr
  cases r with
  | ok item' => exact .renamed h hr' (Item.name_of_rename hr').1
  | error e => exact .failed h hr'

theorem Dealt.kind_eq (h : Dealt item new w item' outcome) : item'.kind = item.kind := by
  cases h with
  | skipped | failed => rfl
  | renamed _ hr => exact (Item.name_of_rename hr).2

/-- An item has its new name exactly if it has been renamed, or had that name before. -/
theorem Dealt.name_eq (h : Dealt item new w item' outcome) :
    item'.name = if outcome.isRenamed then new else item.name := by
  cases h with
  | skipped | failed => rfl
  | renamed _ _ hname => exact hname

theorem answers_renameAll_cons (item : Item) (new : String) (rest : List (Item × String))
    (w : World) : (Deed.on (renameAll ((item, new) :: rest)) w).1 =
      (Deed.on (renameItem item new) w).1 ::
        (Deed.on (renameAll rest) (Deed.on (renameItem item new) w).2).1 :=
  rfl

theorem length_renameAll (pairs : List (Item × String)) (w : World) :
    (Deed.on (renameAll pairs) w).1.length = pairs.length := by
  induction pairs generalizing w with
  | nil => rfl
  | cons pair rest ih =>
    obtain ⟨item, new⟩ := pair
    rw [answers_renameAll_cons, List.length_cons, List.length_cons, ih]

/-- Each item is dealt with in the world that those before it have left. -/
theorem getElem?_renameAll {i : Nat} (h : pairs[i]? = some (item, new)) (w : World) :
    (Deed.on (renameAll pairs) w).1[i]? =
      some (Deed.on (renameItem item new) (Deed.on (renameAll (pairs.take i)) w).2).1 := by
  induction pairs generalizing w i with
  | nil => cases h
  | cons pair rest ih =>
    obtain ⟨first, new'⟩ := pair
    rw [answers_renameAll_cons]
    cases i with
    | zero =>
      cases h
      rfl
    | succ i =>
      rw [List.getElem?_cons_succ, List.take_succ_cons, on_renameAll_cons]
      exact ih h _

theorem kinds_renameAll (pairs : List (Item × String)) (w : World) :
    ((Deed.on (renameAll pairs) w).1.map Prod.fst).map Item.kind =
      (pairs.map Prod.fst).map Item.kind := by
  induction pairs generalizing w with
  | nil => rfl
  | cons pair rest ih =>
    obtain ⟨item, new⟩ := pair
    rw [answers_renameAll_cons, List.map_cons, List.map_cons, ih, (dealt_renameItem ..).kind_eq]
    rfl

/-! ## Outcomes -/

/-- What becomes of an item of a list. -/
def listedOutcome (name new : String) (locked : Bool) : Outcome :=
  if name = new then .skipped name
  else if locked then .failed name new (Error.mutation name "item is locked").message
  else .renamed name new

/-- What becomes of an item of a list depends neither on the world nor on other items. -/
theorem Dealt.of_listed {name : String} {kind : Kind} {context : Except Error (Option String)}
    {locked : Bool} (h : Dealt (.listed name kind context locked) new w item' outcome) :
    outcome = listedOutcome name new locked := by
  cases h with
  | skipped hname => exact (if_pos hname).symm
  | renamed hname hr =>
    cases locked with
    | true => cases hr
    | false => exact (if_neg hname).symm
  | failed hname hr =>
    cases locked with
    | true =>
      cases hr
      exact (if_neg hname).symm
    | false => cases hr

/-- Every outcome is of one sort. -/
theorem countP_outcomes (outcomes : List Outcome) :
    outcomes.countP Outcome.isRenamed + outcomes.countP Outcome.isSkipped +
      outcomes.countP Outcome.isFailed = outcomes.length := by
  induction outcomes with
  | nil => rfl
  | cons outcome rest ih =>
    simp only [List.countP_cons, List.length_cons]
    cases outcome <;> simp [Outcome.isRenamed, Outcome.isSkipped, Outcome.isFailed] <;> omega

/-- The world when the turn of the member `i` comes: those before it have been dealt with. -/
def atTurn (s : Session) (w : World) (i : Nat) : World :=
  (Deed.on (renameAll ((s.selection.members.zip s.proposed).take i)) w).2

theorem dealt_renameMembers {i : Nat} (hi : s.selection.members[i]? = some item)
    (hn : s.proposed[i]? = some new) (w : World) : ∃ item' outcome,
      (Deed.on s.renameMembers w).1[i]? = some (item', outcome) ∧
        Dealt item new (s.atTurn w i) item' outcome := by
  have hpair : (s.selection.members.zip s.proposed)[i]? = some (item, new) :=
    List.getElem?_zip_eq_some.mpr ⟨hi, hn⟩
  exact ⟨_, _, getElem?_renameAll hpair w, dealt_renameItem ..⟩

/-! ## Sessions with a name for each member -/

section

variable (hl : s.proposed.length = s.selection.size) (ho : s.state.isFinal = false) (host : Host)
  (w : World)
include hl

theorem length_renameMembers : (Deed.on s.renameMembers w).1.length = s.selection.size := by
  rw [renameMembers, length_renameAll, List.length_zip, hl]
  exact Nat.min_self _

theorem members_renameMembers :
    (s.selection.withMembers ((Deed.on s.renameMembers w).1.map Prod.fst)).members =
      (Deed.on s.renameMembers w).1.map Prod.fst := by
  refine s.selection.members_withMembers ?_
  rw [renameMembers, kinds_renameAll, List.map_fst_zip (Nat.le_of_eq hl.symm)]
  rfl

include ho

theorem members_confirm : ((confirm host).on s w).2.1.selection.members =
    (Deed.on s.renameMembers w).1.map Prod.fst := by
  rw [on_confirm host w ho]
  exact members_renameMembers hl w

/-- An item that takes part becomes the new member of its rank. -/
theorem getElem?_items_confirm {i : Nat} (hi : s.selection.items[i]? = some item)
    (ht : s.selection.takes item = true) :
    let after := ((confirm host).on s w).2.1.selection
    let rank := (s.selection.items.take i).countP s.selection.takes
    s.selection.members[rank]? = some item ∧ after.items[i]? = after.members[rank]? := by
  intro after rank
  have hm : s.selection.members[rank]? = some item := getElem?_filter_countP hi ht
  have hrank : rank < ((Deed.on s.renameMembers w).1.map Prod.fst).length := by
    rw [List.length_map, length_renameMembers hl]
    exact (List.getElem?_eq_some_iff.mp hm).1
  refine ⟨hm, ?_⟩
  rw [show after.members = _ from members_confirm hl ho host w, List.getElem?_eq_getElem hrank,
    show after = _ from congrArg (·.2.1.selection) (on_confirm host w ho)]
  dsimp only
  rw [Selection.getElem?_withMembers, hi, Option.map_some, if_pos ht,
    List.getElem?_eq_getElem hrank, Option.getD_some]

omit hl in
/-- An item that takes no part stays as it is. -/
theorem getElem?_items_confirm_of_leftOut {i : Nat} (hi : s.selection.items[i]? = some item)
    (ht : s.selection.takes item = false) :
    ((confirm host).on s w).2.1.selection.items[i]? = some item := by
  rw [on_confirm host w ho]
  dsimp only
  rw [Selection.getElem?_withMembers, hi, Option.map_some, ht, if_neg nofun]

theorem outcomes_of_open :
    let r := (confirm host).on s w
    let after := r.2.1.selection
    ∃ outcomes, r.1 = .ok outcomes ∧ outcomes.length = s.selection.size ∧
      after.items.length = s.selection.items.length ∧
      ∀ (i : Nat) item, s.selection.members[i]? = some item → ∃ new item' outcome,
        s.proposed[i]? = some new ∧ after.members[i]? = some item' ∧
        outcomes[i]? = some outcome ∧ Dealt item new (s.atTurn w i) item' outcome := by
  intro r after
  have hr : r = _ := on_confirm host w ho
  have hlen := length_renameMembers hl w
  refine ⟨(Deed.on s.renameMembers w).1.map Prod.snd, congrArg Prod.fst hr, ?_, ?_, ?_⟩
  · rw [List.length_map, hlen]
  · rw [show after = _ from congrArg (·.2.1.selection) hr]
    exact s.selection.length_withMembers _
  intro i item hi
  obtain ⟨hlt, -⟩ := List.getElem?_eq_some_iff.mp hi
  obtain ⟨new, hn⟩ : ∃ new, s.proposed[i]? = some new :=
    ⟨_, List.getElem?_eq_getElem (Nat.lt_of_lt_of_eq hlt hl.symm)⟩
  obtain ⟨item', outcome, hdone, hdealt⟩ := dealt_renameMembers hi hn w
  refine ⟨new, item', outcome, hn, ?_, ?_, hdealt⟩
  · rw [show after.members = _ from members_confirm hl ho host w, List.getElem?_map, hdone]
    rfl
  · rw [List.getElem?_map, hdone]
    rfl

end

/-! ## The theorem -/

section

variable {target : Target} {items : List Item} {setting : Setting} {store : Store}
  {mode : Find.Mode} {s₀ : Session} {w₀ : World} {steps : List Step}

/-- An open session proposes one name for each item that the target does not leave out. -/
theorem selection_of_start [Find.Engine]
    (hb : Act.on (start target (.ofItems items) setting store mode) w = (.ok s₀, w₀))
    (ho : (play steps (s₀, w₀)).1.state.isFinal = false) :
    let s := (play steps (s₀, w₀)).1
    s.selection = ⟨items, target.leftOut⟩ ∧ s.proposed.length = s.selection.size := by
  have hfilled := Run.filled_of_start hb
  obtain ⟨hu, hbasis⟩ := hfilled.upToDate.edits (edits_of_play steps ho)
  have hc := hu.consistent (hbasis.trans hfilled.basis_eq)
  exact ⟨hc.selection_eq, hc.selection_eq ▸ hc.length_proposed⟩

/-- Each item that the target does not leave out is dealt with under the name proposed for it, in
turn, and no other item is touched. The host is asked once to show the items anew. -/
theorem outcomes_of_confirm [Find.Engine]
    (hb : Act.on (start target (.ofItems items) setting store mode) w = (.ok s₀, w₀))
    (ho : (play steps (s₀, w₀)).1.state.isFinal = false) (host : Host) (w' : World) :
    let s := (play steps (s₀, w₀)).1
    let selection : Selection := ⟨items, target.leftOut⟩
    let r := (confirm host).on s w'
    let after := r.2.1.selection
    ∃ outcomes, r.1 = .ok outcomes ∧ outcomes.length = selection.size ∧
      (∀ i item, selection.members[i]? = some item → ∃ new item' outcome,
        s.proposed[i]? = some new ∧ after.members[i]? = some item' ∧
        outcomes[i]? = some outcome ∧ Dealt item new (s.atTurn w' i) item' outcome ∧
        ∀ name kind context locked, item = .listed name kind context locked →
          outcome = listedOutcome name new locked) ∧
      outcomes.countP Outcome.isRenamed + outcomes.countP Outcome.isSkipped +
        outcomes.countP Outcome.isFailed = selection.size ∧
      after.items.length = items.length ∧
      (∀ (i : Nat) item, items[i]? = some item → selection.takes item = false →
        after.items[i]? = some item) ∧
      (∀ (i : Nat) item, items[i]? = some item → selection.takes item = true →
        let rank := (items.take i).countP selection.takes
        selection.members[rank]? = some item ∧ after.items[i]? = after.members[rank]?) ∧
      r.2.2.requests = w'.requests + 1 ∧ r.2.1.state = .confirmed := by
  intro s selection r after
  obtain ⟨hsel, hl⟩ := selection_of_start hb ho
  obtain ⟨outcomes, hok, hlen, hitems, hdealt⟩ := outcomes_of_open hl ho host w'
  have hs : s.selection = selection := hsel
  rw [hsel] at hlen hitems hdealt
  refine ⟨outcomes, hok, hlen, fun i item hi => ?_, (countP_outcomes outcomes).trans hlen, hitems,
    fun i item hi ht => ?_, fun i item hi ht => ?_, requests_confirm host w' ho,
    congrArg (·.2.1.state) (on_confirm host w' ho)⟩
  · obtain ⟨new, item', outcome, hn, hafter, hout, hd⟩ := hdealt i item hi
    exact ⟨new, item', outcome, hn, hafter, hout, hd, by rintro _ _ _ _ rfl; exact hd.of_listed⟩
  · have hi : s.selection.items[i]? = some item := by rwa [hs]
    exact getElem?_items_confirm_of_leftOut ho host w' hi (by rwa [hs])
  · have hi : s.selection.items[i]? = some item := by rwa [hs]
    have hrank := getElem?_items_confirm hl ho host w' hi (by rwa [hs])
    rwa [hsel] at hrank

attribute [local instance] Find.Engine.boundless in
/-- A transition among the items, one item that is locked, one whose new name is taken and one that
keeps its name. -/
theorem outcomes_of_confirm_timeline :
    let items : List Item := [.listed "sh010" .segment (.ok none) false,
      .listed "shut" .transition (.ok none) false, .listed "sh020" .segment (.ok none) true,
      .onDisk (.ofString "sh030") .clip, .listed "cut" .clip (.ok none) false,
      .onDisk (.ofString "sh040") .clip]
    let disk : Disk := ⟨[.folder 0 [(Utf8.encode "sh030", 1), (Utf8.encode "s030", 2),
      (Utf8.encode "sh040", 3)], .file [], .file [], .file []], 0⟩
    let w : World := ⟨disk, [], [], ⟨2024, 2, 21, 15, 7, 0⟩, .fixed none true [], [], 0⟩
    let steps : List Step := [⟨id, .setFind "h"⟩]
    ∃ s₀ w₀, Act.on (start .timeline (.ofItems items) ⟨w.now, "", ""⟩
        ⟨.ofString "p", .blank, false⟩ .legacy) w = (.ok s₀, w₀) ∧
      let s := (play steps (s₀, w₀)).1
      s.state.isFinal = false ∧
      let r := (confirm .counting).on s w
      r.1 = .ok [.renamed "sh010" "s010",
        .failed "sh020" "s020" "Could not rename 'sh020': item is locked",
        .failed "sh030" "s030" "Could not rename 'sh030': s030 already exists", .skipped "cut",
        .renamed "sh040" "s040"] ∧
      (∃ item, r.2.1.selection.members[4]? = some item ∧ item.name = "s040") ∧
      r.2.1.selection.items[1]? = items[1]? ∧ r.2.2.requests = w.requests + 1 := by
  intro items disk w steps
  let begun := Act.on (start .timeline (.ofItems items) ⟨w.now, "", ""⟩
    ⟨.ofString "p", .blank, false⟩ .legacy) w
  let s₀ := blank ⟨items, [.transition]⟩ ⟨w.now, "", ""⟩ .shotName
    ⟨.ofString "p", .blank, false⟩ .legacy
  have hb : begun = (.ok s₀, begun.2) := rfl
  have ho : (play steps (s₀, begun.2)).1.state.isFinal = false := by decide +kernel
  obtain ⟨outcomes, hok, -, hdealt, -, -, hkept, -, hasked, -⟩ :=
    outcomes_of_confirm hb ho .counting w
  obtain ⟨new, item, outcome, hnew, hitem, hout, hd, -⟩ :=
    hdealt 4 (.onDisk (.ofString "sh040") .clip) rfl
  have hanswer : ((confirm .counting).on (play steps (s₀, begun.2)).1 w).1.toOption =
      some [.renamed "sh010" "s010",
        .failed "sh020" "s020" "Could not rename 'sh020': item is locked",
        .failed "sh030" "s030" "Could not rename 'sh030': s030 already exists", .skipped "cut",
        .renamed "sh040" "s040"] := by decide +kernel
  have hproposed : (play steps (s₀, begun.2)).1.proposed[4]? = some "s040" := by decide +kernel
  rw [hok] at hanswer
  obtain rfl := Option.some.inj hanswer
  cases hout
  cases hproposed.symm.trans hnew
  exact ⟨s₀, begun.2, hb, ho, hok, ⟨item, hitem, hd.name_eq⟩, hkept 1 _ rfl rfl, hasked⟩

end

end Session
end Relabel
