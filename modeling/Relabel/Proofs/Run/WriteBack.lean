import Relabel.Proofs.Run.Plan

/-!
# Manifests after a run

* `Run.WrittenBack`: what a manifest holds after a run that has renamed items.
* `Run.manifest_written_back`: a manifest is written if an item has been renamed, and holds this.
-/

namespace Relabel.Run

variable {o : Options} {w w' : World} {p : Preview} {path : Path} {m : Manifest}

/-- How many of the first `i` listings take part. -/
def rank (o : Options) (m : Manifest) (i : Nat) : Nat :=
  (m.listings.take i).countP fun l => takesPart o l.kind

/-- The manifest `m'` lists what `m` lists. The listings that take part and are not locked have the
names that are planned for them, and all others have kept theirs. -/
structure WrittenBack (o : Options) (plans : List Plan) (m m' : Manifest) : Prop where
  length_eq : m'.listings.length = m.listings.length
  planned {i : Nat} {l : Listing} : m.listings[i]? = some l → takesPart o l.kind = true →
    ∃ plan, plans[rank o m i]? = some plan ∧ plan.old = l.name ∧
      m'.listings[i]? = some (if l.locked then l else { l with name := plan.new })
  kept {i : Nat} {l : Listing} : m.listings[i]? = some l → takesPart o l.kind = false →
    m'.listings[i]? = some l

theorem getElem?_proposed {s : Session} {i : Nat} {plan : Plan} (h : (plansOf s)[i]? = some plan) :
    s.proposed[i]? = some plan.new := by
  rw [plansOf, List.getElem?_map] at h
  obtain ⟨pair, hpair, rfl⟩ := Option.map_eq_some_iff.mp h
  exact (List.getElem?_zip_eq_some.mp hpair).2

theorem writtenBack_relisted [Find.Engine] (h : Act.on (preview o) w = (.ok p, w'))
    (hp : p.source = .manifest path m) :
    WrittenBack o (plansOf p.session) m
      (m.relisted p.setup.target.leftOut p.session.proposed) := by
  have htakes (kind : Kind) : (!p.setup.target.leftOut.contains kind) = takesPart o kind := by
    rw [target_of_preview h]
    exact not_contains_leftOut o kind
  refine ⟨Manifest.length_relisted, ?_, ?_⟩
  · intro i l hl ht
    -- The plans stand in the order of the listings that take part.
    have hrank : m.rank p.setup.target.leftOut i = rank o m i := by
      simp only [Manifest.rank, rank, htakes]
    have hkind : p.setup.target.leftOut.contains l.kind = false := by
      rw [← Bool.not_eq_true', htakes, ht]
    obtain ⟨plan, hplan, hold⟩ : ∃ plan, (plansOf p.session)[rank o m i]? = some plan ∧
        plan.old = l.name := by
      rw [plansOf_eq (filled_of_preview h).2, (manifest_of_source h hp).2, m.members_items,
        List.map_map, List.getElem?_map, ← hrank, Manifest.getElem?_members hl hkind]
      exact ⟨_, rfl, rfl⟩
    exact ⟨plan, hplan, hold,
      Manifest.getElem?_relisted hl hkind (hrank ▸ getElem?_proposed hplan)⟩
  · intro i l hl ht
    refine Manifest.getElem?_relisted_of_excluded hl ?_
    rw [← Bool.not_eq_false', htakes, ht]

/-- Over a manifest that can be read, a run that fails and a run that renames nothing leave the disk
as it is. After every other run the manifest can be read again, and lists the same items under the
names that were planned. -/
theorem manifest_written_back [Find.Engine] (w : World) (ho : o.manifest? = some path)
    (hm : Manifest.ofFile w.disk path = .ok m) :
    (∀ e, (Act.on (execute .rename o) w).1 = .error e →
      (Act.on (execute .rename o) w).2.disk = w.disk) ∧
    ∀ summary, (Act.on (execute .rename o) w).1 = .ok summary →
      (summary.renamed = 0 → (Act.on (execute .rename o) w).2.disk = w.disk) ∧
      (0 < summary.renamed →
        ∃ m', Manifest.ofFile (Act.on (execute .rename o) w).2.disk path = .ok m' ∧
          WrittenBack o summary.plans m m') := by
  refine ⟨fun e he => (says_of_error he).disk, fun summary hs => ?_⟩
  rcases preview_cases o w with ⟨_, _, he, -⟩ | ⟨p, w', hp⟩
  · rw [he] at hs
    cases hs
  obtain ⟨hn, -⟩ | ⟨path', m', ho', hm', hsource, -⟩ := source_cases hp
  · exact nomatch hn.symm.trans ho
  cases ho.symm.trans ho'
  cases hm.symm.trans hm'
  obtain ⟨summary', w₁, he, hplans, hzero, hpos⟩ := execute_of_manifest hp hsource
  rw [he] at hs ⊢
  cases hs
  exact ⟨hzero, fun hr => ⟨_, hpos hr, hplans ▸ writtenBack_relisted hp hsource⟩⟩

attribute [local instance] Find.Engine.boundless in
/-- Of three listings one is renamed, one takes no part and one is locked. -/
theorem manifest_written_back_timeline :
    let text := "items: [\x7bname: a, kind: clip, context: k\x7d, " ++
      "\x7bname: b, kind: transition\x7d, \x7bname: c, kind: clip, locked: true\x7d]"
    let disk : Disk := ⟨[.folder 0 [(Utf8.encode "m", 1)], .file (Utf8.encode text)], 0⟩
    let w : World :=
      ⟨disk, [], [("HOME", "/")], ⟨2024, 2, 21, 15, 7, 0⟩, .fixed none true [], [], 0⟩
    let o : Options :=
      ⟨none, some "?", some "z", none, some (.ofString "m"), [], true, false, false⟩
    ∃ m', Manifest.ofFile (Act.on (execute .rename o) w).2.disk (.ofString "m") = .ok m' ∧
      m'.listings[0]? = some ⟨"z", .clip, some "k", false⟩ ∧
      m'.listings[1]? = some ⟨"b", .transition, none, false⟩ ∧
      m'.listings[2]? = some ⟨"c", .clip, none, true⟩ := by
  intro text disk w o
  obtain ⟨hm, hs⟩ : Manifest.ofFile w.disk (.ofString "m") = .ok ⟨[⟨"a", .clip, some "k", false⟩,
        ⟨"b", .transition, none, false⟩, ⟨"c", .clip, none, true⟩]⟩ ∧
      (Act.on (execute .rename o) w).1 = .ok ⟨some .confirmed, 2, [⟨"a", "z"⟩, ⟨"c", "z"⟩],
        [.renamed "a" "z", .failed "c" "z" "Could not rename 'c': item is locked"]⟩ := by
    decide +kernel
  obtain ⟨-, hrun⟩ := manifest_written_back w (rfl : o.manifest? = some (.ofString "m")) hm
  obtain ⟨m', hm', hw⟩ := (hrun _ hs).2 (by decide)
  refine ⟨m', hm', ?_, hw.kept (i := 1) rfl rfl, ?_⟩
  · obtain ⟨_, hplan, -, hl⟩ := hw.planned (i := 0) rfl rfl
    cases hplan
    exact hl
  · obtain ⟨_, -, -, hl⟩ := hw.planned (i := 2) rfl rfl
    exact hl

end Relabel.Run
