import Relabel.Proofs.Item.Members
import Relabel.Proofs.Session.Confirmation
import Relabel.Proofs.World.Quiet

/-!
# Renaming items of a manifest

Items that are listed in a manifest get their new names in memory, unless they are locked. Nothing
else happens until the manifest is written.

* `Session.on_renameItem_toItem`: what becomes of one listing.
* `Session.on_renameAll_toItem`: what becomes of many.
-/

namespace Relabel.Session

theorem on_renameItem_toItem (l : Listing) (new : String) (w : World) :
    (Deed.on (renameItem l.toItem new) w).1.1 = (l.renamed new).toItem ∧
      w.Says (Deed.on (renameItem l.toItem new) w).2 := by
  obtain ⟨name, kind, context, locked⟩ := l
  rw [on_renameItem]
  split
  · next h =>
    subst h
    refine ⟨?_, .tell ..⟩
    cases locked <;> rfl
  · cases locked <;> exact ⟨rfl, .tell ..⟩

/-- Items of a manifest are renamed in their listings only, and those that are locked stay. -/
theorem on_renameAll_toItem (ls : List Listing) (news : List String) (w : World) :
    (Deed.on (renameAll ((ls.map Listing.toItem).zip news)) w).1.map Prod.fst =
        (List.zipWith Listing.renamed ls news).map Listing.toItem ∧
      w.Says (Deed.on (renameAll ((ls.map Listing.toItem).zip news)) w).2 := by
  induction ls generalizing news w with
  | nil => exact ⟨rfl, .refl w⟩
  | cons l ls ih =>
    cases news with
    | nil => exact ⟨rfl, .refl w⟩
    | cons new news =>
      obtain ⟨hl, hw⟩ := on_renameItem_toItem l new w
      obtain ⟨hls, hws⟩ := ih news (Deed.on (renameItem l.toItem new) w).2
      exact ⟨congrArg₂ List.cons hl hls, hw.trans hws⟩

end Relabel.Session
