import Relabel.Item.Manifest

/-!
# Items in their places

The members of a selection are worked on apart from the items that take no part, and are put back
into their places. The rank of an item among the members tells which of the new ones it becomes.

* `Selection.getElem?_withMembers`: the items of a selection with new members.
* `Selection.members_withMembers`: its members.
* `Manifest.relisted`: a manifest whose members have new names.
-/

namespace Relabel

/-- An element that is kept comes behind those before it that are kept. -/
theorem getElem?_filter_countP {α : Type} {f : α → Bool} {l : List α} {i : Nat} {a : α}
    (h : l[i]? = some a) (ha : f a = true) : (l.filter f)[(l.take i).countP f]? = some a := by
  obtain ⟨hi, rfl⟩ := List.getElem?_eq_some_iff.mp h
  have hl : l.filter f = (l.take i).filter f ++ l[i] :: (l.drop (i + 1)).filter f := by
    rw [← List.filter_cons_of_pos ha, ← List.drop_eq_getElem_cons hi, ← List.filter_append,
      List.take_append_drop]
  rw [hl, List.countP_eq_length_filter, List.getElem?_append_right (Nat.le_refl _), Nat.sub_self]
  rfl

namespace Selection

theorem length_go (s : Selection) (items ms : List Item) :
    (withMembers.go s items ms).length = items.length := by
  induction items generalizing ms with
  | nil => rfl
  | cons item rest ih =>
    unfold withMembers.go
    split
    · cases ms <;> exact congrArg (· + 1) (ih _)
    · exact congrArg (· + 1) (ih ms)

theorem length_withMembers (s : Selection) (ms : List Item) :
    (s.withMembers ms).items.length = s.items.length :=
  s.length_go s.items ms

theorem getElem?_go (s : Selection) (items ms : List Item) (i : Nat) :
    (withMembers.go s items ms)[i]? = items[i]?.map fun item =>
      if s.takes item then ms[(items.take i).countP s.takes]?.getD item else item := by
  -- `ms` are the new members that are left when the walk comes to `items`.
  induction items generalizing ms i with
  | nil => rfl
  | cons item rest ih =>
    unfold withMembers.go
    cases i with
    | zero =>
      split
      · next h => cases ms <;> simp [h]
      · next h => simp [h]
    | succ i =>
      split
      · next h => cases ms <;> simp [h, ih]
      · next h => simp [h, ih]

/-- A member becomes the new one of its rank, and all other items stay. -/
theorem getElem?_withMembers (s : Selection) (ms : List Item) (i : Nat) :
    (s.withMembers ms).items[i]? = s.items[i]?.map fun item =>
      if s.takes item then ms[(s.items.take i).countP s.takes]?.getD item else item :=
  s.getElem?_go s.items ms i

theorem filter_go (s : Selection) {items ms : List Item}
    (h : ms.map Item.kind = (items.filter s.takes).map Item.kind) :
    (withMembers.go s items ms).filter s.takes = ms := by
  induction items generalizing ms with
  | nil => exact (List.map_eq_nil_iff.mp h).symm
  | cons item rest ih =>
    unfold withMembers.go
    cases ht : s.takes item with
    | false =>
      rw [List.filter_cons_of_neg (by simp [ht])] at h
      rw [if_neg nofun, List.filter_cons_of_neg (by simp [ht]), ih h]
    | true =>
      rw [List.filter_cons_of_pos ht, List.map_cons] at h
      obtain ⟨m, ms, rfl, hm, hms⟩ := List.map_eq_cons_iff.mp h
      have htm : s.takes m = true := by rw [takes, hm, ← takes, ht]
      rw [if_pos rfl]
      dsimp only
      rw [List.filter_cons_of_pos htm, ih hms]

/-- New members that are of the same kinds as the old ones are members. -/
theorem members_withMembers (s : Selection) {ms : List Item} (h : ms.map Item.kind = s.kinds) :
    (s.withMembers ms).members = ms :=
  s.filter_go h

end Selection

/-! ## Manifests -/

/-- The listing with a new name, unless it is locked. -/
def Listing.renamed (l : Listing) (new : String) : Listing :=
  if l.locked then l else { l with name := new }

namespace Manifest

variable {m : Manifest} {excluded : List Kind} {news : List String} {i : Nat} {l : Listing}

def members (m : Manifest) (excluded : List Kind) : List Listing :=
  m.listings.filter fun l => !excluded.contains l.kind

/-- How many of the first `i` listings take part. -/
def rank (m : Manifest) (excluded : List Kind) (i : Nat) : Nat :=
  (m.listings.take i).countP fun l => !excluded.contains l.kind

/-- The manifest whose members have got new names. -/
def relisted (m : Manifest) (excluded : List Kind) (news : List String) : Manifest :=
  m.withItems ((⟨m.items, excluded⟩ : Selection).withMembers
    ((List.zipWith Listing.renamed (m.members excluded) news).map Listing.toItem)).items

theorem members_items (m : Manifest) (excluded : List Kind) :
    (⟨m.items, excluded⟩ : Selection).members = (m.members excluded).map Listing.toItem :=
  List.filter_map

theorem getElem?_members (h : m.listings[i]? = some l) (hl : excluded.contains l.kind = false) :
    (m.members excluded)[m.rank excluded i]? = some l :=
  getElem?_filter_countP h (by rw [hl]; rfl)

theorem length_relisted : (m.relisted excluded news).listings.length = m.listings.length := by
  rw [relisted, withItems, List.length_zipWith, Selection.length_withMembers]
  simp [items]

theorem getElem?_withItems {item : Item} {items : List Item} (h : m.listings[i]? = some l)
    (hi : items[i]? = some item) :
    (m.withItems items).listings[i]? = some { l with name := item.name } := by
  rw [withItems, List.getElem?_zipWith, h, hi]

/-- Items that take part are the members in turn, and the others stay as they are. -/
theorem getElem?_withMembers (h : m.listings[i]? = some l) (excluded : List Kind)
    (ms : List Item) :
    ((⟨m.items, excluded⟩ : Selection).withMembers ms).items[i]? =
      some (if excluded.contains l.kind then l.toItem else
        ms[m.rank excluded i]?.getD l.toItem) := by
  have hi : m.items[i]? = some l.toItem := by rw [items, List.getElem?_map, h, Option.map_some]
  have hrank : (m.items.take i).countP (⟨m.items, excluded⟩ : Selection).takes =
      m.rank excluded i := by
    rw [items, ← List.map_take, List.countP_map]
    rfl
  rw [Selection.getElem?_withMembers, hi, hrank]
  change some (if !excluded.contains l.kind then _ else _) = _
  cases excluded.contains l.kind <;> rfl

/-- A listing that is no member keeps its name. -/
theorem getElem?_relisted_of_excluded (h : m.listings[i]? = some l)
    (hl : excluded.contains l.kind = true) : (m.relisted excluded news).listings[i]? = some l := by
  have hitem := getElem?_withMembers h excluded
    ((List.zipWith Listing.renamed (m.members excluded) news).map Listing.toItem)
  rw [if_pos hl] at hitem
  exact getElem?_withItems h hitem

/-- A member gets the new name of its rank. -/
theorem getElem?_relisted (h : m.listings[i]? = some l) (hl : excluded.contains l.kind = false)
    {new : String} (hn : news[m.rank excluded i]? = some new) :
    (m.relisted excluded news).listings[i]? = some (l.renamed new) := by
  have hitem : ((⟨m.items, excluded⟩ : Selection).withMembers
      ((List.zipWith Listing.renamed (m.members excluded) news).map Listing.toItem)).items[i]? =
        some (l.renamed new).toItem := by
    rw [getElem?_withMembers h, hl, List.getElem?_map, List.getElem?_zipWith,
      getElem?_members h hl, hn]
    rfl
  rw [relisted, getElem?_withItems h hitem]
  obtain ⟨name, kind, context, locked⟩ := l
  cases locked <;> rfl

end Manifest
end Relabel
