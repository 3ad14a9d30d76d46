import Mathlib.Data.List.Forall2
import Relabel.Proofs.Run.Plan
import Relabel.Proofs.Session.Outcomes

/-!
# What a run accounts for

A run plans before it asks, and renames afterwards. By the time that an item has its turn, earlier
ones may have moved it or taken its new name; then it refuses that name. Its old name is still the
one that was planned, so that all but the refusals is known beforehand.

* `Run.Plan.ComesTo`: what can become of a plan.
* `Run.comesTo_renameMembers`: the outcomes of a session stand in the order of its plans.
* `Run.pending_of_comesTo`: the plans that change a name come to a renaming or to a failure.
* `Run.account_of_execute`: what a run reports, asks and does.
-/

namespace Relabel.Run

open Session (Outcome)

variable {o : Options} {w w' : World} {p : Preview} {plans : List Plan} {outcomes : List Outcome}
  {summary : Summary}

/-! ## Plans and outcomes -/

/-- What can become of a plan. -/
inductive Plan.ComesTo (plan : Plan) : Outcome → Prop
  | renamed : plan.changes = true → plan.ComesTo (.renamed plan.old plan.new)
  | skipped : plan.changes = false → plan.ComesTo (.skipped plan.old)
  | failed (detail : String) : plan.changes = true → plan.ComesTo (.failed plan.old plan.new detail)

/-- The name of an item whose plan has come to an outcome. -/
def Plan.nameAfter (plan : Plan) (outcome : Outcome) : String :=
  if outcome.isRenamed then plan.new else plan.old

/-- The plan for an item and the name that it is to get. -/
def planFor (pair : Item × String) : Plan := ⟨pair.1.name, pair.2⟩

theorem comesTo_of_dealt {item item' : Item} {new : String} {outcome : Outcome}
    (h : Session.Dealt item new w item' outcome) : (planFor (item, new)).ComesTo outcome := by
  cases h with
  | skipped h => exact .skipped (by simp [planFor, Plan.changes, h])
  | renamed h => exact .renamed (by simp [planFor, Plan.changes, h])
  | failed h => exact .failed _ (by simp [planFor, Plan.changes, h])

theorem comesTo_renameAll (pairs : List (Item × String)) (w : World) :
    List.Forall₂ Plan.ComesTo (pairs.map planFor)
      ((Deed.on (Session.renameAll pairs) w).1.map Prod.snd) := by
  induction pairs generalizing w with
  | nil => exact .nil
  | cons pair rest ih =>
    obtain ⟨item, new⟩ := pair
    rw [Session.answers_renameAll_cons]
    exact .cons (comesTo_of_dealt (Session.dealt_renameItem item new w)) (ih _)

theorem names_renameAll (pairs : List (Item × String)) (w : World) :
    let done := (Deed.on (Session.renameAll pairs) w).1
    (done.map Prod.fst).map Item.name =
      List.zipWith Plan.nameAfter (pairs.map planFor) (done.map Prod.snd) := by
  induction pairs generalizing w with
  | nil => rfl
  | cons pair rest ih =>
    obtain ⟨item, new⟩ := pair
    exact congrArg₂ List.cons (Session.dealt_renameItem item new w).name_eq (ih _)

theorem plansOf_eq_zip (s : Session) :
    plansOf s = (s.selection.members.zip s.proposed).map planFor := by
  rw [plansOf, Session.preview, Session.names, Selection.names, List.zip_map_left, List.map_map]
  rfl

theorem comesTo_renameMembers (s : Session) (w : World) :
    List.Forall₂ Plan.ComesTo (plansOf s) ((Deed.on s.renameMembers w).1.map Prod.snd) :=
  plansOf_eq_zip s ▸ comesTo_renameAll _ w

theorem names_renameMembers (s : Session) (w : World) :
    let done := (Deed.on s.renameMembers w).1
    (done.map Prod.fst).map Item.name =
      List.zipWith Plan.nameAfter (plansOf s) (done.map Prod.snd) :=
  plansOf_eq_zip s ▸ names_renameAll _ w

theorem pending_of_comesTo (h : List.Forall₂ Plan.ComesTo plans outcomes) :
    pending plans = outcomes.countP Outcome.isRenamed + outcomes.countP Outcome.isFailed := by
  induction h with
  | nil => rfl
  | @cons plan _ plans _ h _ ih =>
    have hp : pending (plan :: plans) = pending plans + if plan.changes then 1 else 0 :=
      List.countP_cons
    rw [hp, ih, List.countP_cons, List.countP_cons]
    cases h with
    | skipped hc => simp [hc, Outcome.isRenamed, Outcome.isFailed]
    | renamed hc | failed _ hc =>
      simp [hc, Outcome.isRenamed, Outcome.isFailed]
      omega

/-! ## Up to the preview -/

theorem gathered_of_preview [Find.Engine] (h : Act.on (preview o) w = (.ok p, w')) :
    ∃ w₀, w.Says w₀ ∧ (Act.on (gather o) w₀).1 = .ok (p.source, p.items) := by
  obtain ⟨w₁, w₂, -, -, hsetup, hitems, -, -⟩ := preview_eq_ok h
  exact ⟨w₁, by simpa [hsetup] using quiet_load o w, by rw [hitems]⟩

theorem selection_targetFor [Find.Engine] (h : Act.on (preview o) w = (.ok p, w')) :
    p.session.selection = ⟨p.items, (targetFor o).leftOut⟩ := by
  rw [selection_of_preview h, target_of_preview h]

/-- There is a proposed name for each member. -/
theorem length_proposed_of_preview [Find.Engine] (h : Act.on (preview o) w = (.ok p, w')) :
    p.session.proposed.length = p.session.selection.size := by
  have hf := (filled_of_preview h).2
  have hc := hf.upToDate.consistent hf.basis_eq
  exact hc.selection_eq ▸ hc.length_proposed

/-- A run plans for each item that takes part. -/
theorem olds_of_preview [Find.Engine] (h : Act.on (preview o) w = (.ok p, w')) :
    (plansOf p.session).map Plan.old = p.session.selection.names := by
  rw [plansOf_eq (filled_of_preview h).2, selection_of_preview h, List.map_map]
  rfl

/-! ## From the question on -/

/-- What is done to the disk once the items are as given. -/
def Source.written (summary : Summary) (items : List Item) : Source → List Change
  | folders => []
  | manifest path m =>
    if 0 < summary.renamed then [.write path (Utf8.encode (m.withItems items).render)] else []

/-- What follows the renaming writes a manifest at most, and asks nothing. -/
theorem asks_finish {source : Source} {s : Session} {summary' : Summary}
    (h : Act.on (finish source summary s) w = (.ok summary', w')) :
    summary' = summary ∧ w.Asks (source.written summary s.selection.items) [] w' := by
  cases source with
  | folders =>
    rw [on_finish_folders] at h
    cases h
    exact ⟨rfl, .refl w⟩
  | manifest path m =>
    unfold finish at h
    unfold Source.written
    dsimp only
    split at h
    · next hr =>
      rw [if_pos hr]
      obtain ⟨_, w₁, hu, h⟩ := Act.bind_eq_ok h
      obtain ⟨_, w₂, hs, hu⟩ := Act.bind_eq_ok hu
      cases h
      cases hu
      rw [Manifest.save, World.on_writeFile] at hs
      split at hs
      · cases hs
        exact ⟨rfl, rfl, rfl⟩
      · cases hs
    · next hr =>
      rw [if_neg hr]
      cases h
      exact ⟨rfl, .refl w⟩

/-- Where the user agrees, each plan comes to an outcome, and the disk is changed accordingly. -/
theorem account_of_agreed [Find.Engine] {w₀ : World} (hp : Act.on (preview o) w = (.ok p, w₀))
    (hd : o.dryRun = false) (ha : agrees p.session w₀ = true)
    (h : Act.on (execute .rename o) w = (.ok summary, w')) :
    let selection := p.session.selection
    ∃ outcomes members, summary = confirmed p.session outcomes ∧
      List.Forall₂ Plan.ComesTo (plansOf p.session) outcomes ∧
      (selection.withMembers members).names =
        List.zipWith Plan.nameAfter (plansOf p.session) outcomes ∧
      w.Asks ((selection.members.zip outcomes).flatMap Session.changesFor ++
          p.source.written summary (selection.withMembers members).items)
        [.confirm renameTitle (renameMessage (plansOf p.session))] w' := by
  intro selection
  obtain ⟨w₁, w₂, -, -, hask, hdone, he⟩ := on_execute_of_agreed hp hd ha
  dsimp only at he
  obtain ⟨rfl, hfinish⟩ := asks_finish (he.symm.trans h)
  have hl := length_proposed_of_preview hp
  have hrename := Session.asks_renameAll (selection.members.zip p.session.proposed) w₁
  have hmembers : (selection.members.zip p.session.proposed).map Prod.fst = selection.members :=
    List.map_fst_zip (Nat.le_of_eq hl.symm)
  rw [hmembers] at hrename
  refine ⟨_, _, rfl, comesTo_renameMembers p.session w₁, ?_,
    hask.trans (hrename.trans (hdone.trans hfinish))⟩
  rw [Selection.names, Session.members_renameMembers hl w₁]
  exact names_renameMembers p.session w₁

/-! ## The theorem -/

/-- A run that does not fail has been confirmed or cancelled. If it has been confirmed, it has put
one question, which tells how many items are renamed or fail to be. Its outcomes stand in the order
of its plans, and it has done to the disk what they say, and nothing else but to write the manifest
with the names that the items then had. If it has been cancelled, it has done nothing. -/
theorem account_of_execute [Find.Engine] (h : Act.on (execute .rename o) w = (.ok summary, w')) :
    (summary.state? = some .confirmed ∨ summary.state? = some .cancelled) ∧
    (summary.state? = some .confirmed →
      summary.selected = summary.plans.length ∧
      summary.selected = summary.renamed + summary.skipped + summary.failed ∧
      pending summary.plans = summary.renamed + summary.failed ∧
      List.Forall₂ Plan.ComesTo summary.plans summary.outcomes ∧
      ∃ source items w₀ members, w.Says w₀ ∧ (Act.on (gather o) w₀).1 = .ok (source, items) ∧
        let selection : Selection := ⟨items, (targetFor o).leftOut⟩
        let after := selection.withMembers members
        summary.plans.map Plan.old = selection.names ∧
        List.zipWith Plan.nameAfter summary.plans summary.outcomes = after.names ∧
        w.Asks ((selection.members.zip summary.outcomes).flatMap Session.changesFor ++
          source.written summary after.items)
          [.confirm renameTitle (renameMessage summary.plans)] w') ∧
    (summary.state? = some .cancelled →
      summary.renamed = 0 ∧ summary.skipped = 0 ∧ summary.failed = 0 ∧ w'.disk = w.disk ∧
        w'.changes = w.changes) := by
  have hends : some Session.State.cancelled ≠ some .confirmed := by decide
  rcases preview_cases o w with ⟨_, _, he, -⟩ | ⟨p, w₀, hp⟩
  · rw [he] at h
    cases h
  by_cases hn : o.dryRun = true ∨ agrees p.session w₀ = false
  · obtain ⟨w₁, he, hd, hc⟩ := on_execute_of_givenUp hp hn
    rw [he] at h
    cases h
    exact ⟨.inr rfl, (absurd · hends), fun _ => ⟨rfl, rfl, rfl, hd, hc⟩⟩
  simp only [not_or, Bool.not_eq_true, Bool.not_eq_false] at hn
  obtain ⟨outcomes, members, rfl, hplans, hnames, hasks⟩ := account_of_agreed hp hn.1 hn.2 h
  obtain ⟨w₁, hw, hitems⟩ := gathered_of_preview hp
  have holds := olds_of_preview hp
  have hselected : p.session.names.length = (plansOf p.session).length := by
    simpa [Session.names] using (congrArg List.length holds).symm
  rw [selection_targetFor hp] at holds hnames hasks
  refine ⟨.inl rfl, fun _ => ⟨hselected, ?_, pending_of_comesTo hplans, hplans, p.source, p.items,
    w₁, members, hw, hitems, holds, hnames.symm, hasks⟩, (absurd · hends.symm)⟩
  calc p.session.names.length = outcomes.length := hselected.trans hplans.length_eq
    _ = _ := (Session.countP_outcomes outcomes).symm

attribute [local instance] Find.Engine.boundless in
/-- A directory, an entry in it, the directory again, an entry that is to get the directory's new
name, and one that has its new name already. -/
theorem account_of_execute_overlapping :
    let disk : Disk := ⟨[.folder 0 [(Utf8.encode "a", 1), (Utf8.encode "b", 3),
      (Utf8.encode "d", 4)], .folder 0 [(Utf8.encode "a", 2)], .file [], .file [],
      .folder 0 [(Utf8.encode "c", 5)], .file []], 0⟩
    let w : World :=
      ⟨disk, [], [("HOME", "/")], ⟨2024, 2, 21, 15, 7, 0⟩, .scripted [] [true] [], [], 0⟩
    let o : Options := ⟨none, some "?", some "c", none, none,
      ["a", "a/a", "a", "b", "d/c"].map Path.ofString, false, false, false⟩
    ∃ summary w', Act.on (execute .rename o) w = (.ok summary, w') ∧
      summary.state? = some .confirmed ∧ summary.selected = 5 ∧
      summary.outcomes = [.renamed "a" "c",
        .failed "a" "c" "Could not rename 'a': No such file or directory (os error 2)",
        .failed "a" "c" "Could not rename 'a': c already exists",
        .failed "b" "c" "Could not rename 'b': c already exists", .skipped "c"] ∧
      summary.selected = summary.renamed + summary.skipped + summary.failed ∧
      pending summary.plans = summary.renamed + summary.failed ∧
      w'.prompter = .scripted [] [] [.confirm "Find and Replace" "Rename 4 item(s)?"] := by
  intro disk w o
  let summary : Summary := ⟨some .confirmed, 5,
    [⟨"a", "c"⟩, ⟨"a", "c"⟩, ⟨"a", "c"⟩, ⟨"b", "c"⟩, ⟨"c", "c"⟩],
    [.renamed "a" "c",
      .failed "a" "c" "Could not rename 'a': No such file or directory (os error 2)",
      .failed "a" "c" "Could not rename 'a': c already exists",
      .failed "b" "c" "Could not rename 'b': c already exists", .skipped "c"]⟩
  have hs : (Act.on (execute .rename o) w).1 = .ok summary := by decide +kernel
  have h : Act.on (execute .rename o) w = (.ok summary, (Act.on (execute .rename o) w).2) :=
    Prod.ext hs rfl
  obtain ⟨-, hconfirmed, -⟩ := account_of_execute h
  obtain ⟨-, hsum, hpending, -, _, _, _, _, -, -, -, -, hasks⟩ := hconfirmed rfl
  refine ⟨summary, _, h, rfl, rfl, rfl, hsum, hpending, hasks.prompter.trans ?_⟩
  decide +kernel

end Relabel.Run
