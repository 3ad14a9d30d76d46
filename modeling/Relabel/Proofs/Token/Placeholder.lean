import Relabel.Proofs.Text.Replacing
import Relabel.Token.Basic

/-!
# Placeholders in a template

The tokens of a pool are put into a template one after the other, so that a text that has been put
in is looked through for the placeholders of the tokens that follow, and a text that is resolved
again is looked through for all of them.

* `Token.Bracketed`: placeholders stand in angle brackets, so that no two of them overlap.
* `Token.ArisesAround`: the placeholder of a token can come about where a text is put in.
* `Token.Settles`: no text of a pool brings a placeholder about that has been looked for before.
* `Token.Distinct.settles_iff`: this is what it takes that a resolved template holds no placeholder.
* `Token.Distinct.applyAll_insert`: a text is put in as it is if it brings no later placeholder
  about.
-/

namespace Relabel.Token

open Text (replaceAll Seam Clashes)

/-! ## Brackets -/

/-- A text in angle brackets, with no such bracket between them. -/
structure Bracketed (q : List Char) : Prop where
  head : q.head? = some '<'
  last : q.getLast? = some '>'
  tail : '<' ∉ q.tail
  init : '>' ∉ q.dropLast

namespace Bracketed

variable {w p x y z r : List Char}

instance (q : List Char) : Decidable (Bracketed q) :=
  decidable_of_iff (q.head? = some '<' ∧ q.getLast? = some '>' ∧ '<' ∉ q.tail ∧ '>' ∉ q.dropLast)
    ⟨fun ⟨h, l, t, i⟩ => ⟨h, l, t, i⟩, fun ⟨h, l, t, i⟩ => ⟨h, l, t, i⟩⟩

theorem ne_nil (h : Bracketed w) : w ≠ [] := by
  rintro rfl
  exact nomatch h.head

theorem notMem_right {a b : List Char} (h : Bracketed (a ++ b)) (ha : a ≠ []) : '<' ∉ b := by
  obtain ⟨c, a, rfl⟩ := List.exists_cons_of_ne_nil ha
  exact fun hb => h.tail (List.mem_append_right a hb)

theorem notMem_left {a b : List Char} (h : Bracketed (a ++ b)) (hb : b ≠ []) : '>' ∉ a := by
  intro ha
  refine h.init ?_
  rw [List.dropLast_append_of_ne_nil hb]
  exact List.mem_append_left _ ha

theorem open_mem (h : Bracketed w) : '<' ∈ w := List.mem_of_head? h.head

theorem close_mem (h : Bracketed w) : '>' ∈ w := List.mem_of_getLast? h.last

/-- No placeholder reaches across the place where another one begins. -/
theorem seam_before (h : Bracketed w) (hz : z.head? = some '<') : Seam w x z := by
  rintro a b rfl ha hb - ⟨t, rfl⟩
  rw [List.head?_append_of_ne_nil _ hb] at hz
  exact h.notMem_right ha (List.mem_of_head? hz)

/-- No placeholder reaches across the place where another one ends. -/
theorem seam_behind (h : Bracketed w) (hx : x.getLast? = some '>') : Seam w x z := by
  rintro a b rfl ha hb ⟨t, rfl⟩ -
  rw [List.getLast?_append_of_ne_nil _ ha] at hx
  exact h.notMem_left hb (List.mem_of_getLast? hx)

theorem eq_of_isInfix (hw : Bracketed w) (hp : Bracketed p) (h : w <:+: p) : w = p := by
  obtain ⟨x, y, rfl⟩ := h
  obtain rfl : x = [] := by
    by_contra hx
    rw [List.append_assoc] at hp
    exact hp.notMem_right hx (List.mem_append_left y hw.open_mem)
  obtain rfl : y = [] := by
    by_contra hy
    exact hp.notMem_left hy hw.close_mem
  simp

/-- A text in brackets is replaced on its own, whatever stands around it. -/
theorem replaceAll_around (hw : Bracketed w) (hp : Bracketed p) :
    replaceAll w r (x ++ p ++ y) = replaceAll w r x ++ replaceAll w r p ++ replaceAll w r y := by
  have hhead : (p ++ y).head? = some '<' := by rw [List.head?_append_of_ne_nil _ hp.ne_nil, hp.head]
  rw [List.append_assoc, Text.replaceAll_append hw.ne_nil (hw.seam_before hhead),
    Text.replaceAll_append hw.ne_nil (hw.seam_behind hp.last), List.append_assoc]

/-- A text without brackets makes up a placeholder only as a part of it: both brackets have to come
from what is missing around it. -/
theorem isInfix_of_clashes {v : List Char} (hw : Bracketed w) (ho : '<' ∉ v) (hc : '>' ∉ v)
    (h : Clashes v w) : v <:+: w := by
  obtain ⟨a, ha, b, hb, haw, hbw, hi⟩ := h
  obtain ⟨a', ha'⟩ := (List.mem_inits ..).mp ha
  obtain ⟨b', hb'⟩ := (List.mem_tails ..).mp hb
  have hca : '>' ∉ a :=
    notMem_left (ha' ▸ hw) fun h => haw (by rw [← ha', h, List.append_nil])
  have hob : '<' ∉ b :=
    notMem_right (hb' ▸ hw) fun h => hbw (by rw [← hb', h, List.nil_append])
  -- The closing bracket can only come from `b` and the opening one only from `a`.
  obtain hi | hi | ⟨c, d, hcne, -, rfl, hcav, -⟩ := List.infix_append_iff_ne_nil.mp hi
  · exact absurd (hi.subset hw.close_mem) (by simp [hc, hca])
  · exact absurd (hi.subset hw.open_mem) hob
  · rcases List.suffix_or_suffix_of_suffix hcav (List.suffix_append a v) with h | h
    · have hoc : '<' ∈ c :=
        (List.mem_append.mp hw.open_mem).resolve_right (hw.notMem_right hcne)
      exact absurd (h.subset hoc) ho
    · exact h.isInfix.trans (List.prefix_append c d).isInfix

end Bracketed

/-! ## One token -/

variable {t u : Token} {pool : List Token} {s v a b : String}

/-- The placeholder stands in the text. -/
def OccursIn (t : Token) (s : String) : Prop := t.placeholder.toList <:+: s.toList

/-- The placeholder can come about where the text `v` is put in. -/
def ArisesAround (t : Token) (v : String) : Prop := Clashes v.toList t.placeholder.toList

instance (t : Token) (v : String) : Decidable (t.ArisesAround v) :=
  inferInstanceAs (Decidable (Clashes _ _))

/-- The text `v` is left as it is, whatever stands around it. -/
def Spares (t : Token) (v : String) : Prop :=
  ∀ a b, t.apply (a ++ v ++ b) = t.apply a ++ v ++ t.apply b

theorem toList_apply (t : Token) (s : String) :
    (t.apply s).toList = replaceAll t.placeholder.toList t.text.toList s.toList :=
  String.toList_ofList

/-- A text without the placeholder is left as it is. -/
theorem apply_of_not_occursIn (ht : Bracketed t.placeholder.toList) (h : ¬ t.OccursIn s) :
    t.apply s = s := by
  rw [← String.toList_inj, toList_apply, Text.replaceAll_of_absent ht.ne_nil h]

theorem not_occursIn_apply_self (ht : Bracketed t.placeholder.toList)
    (h : ¬ t.ArisesAround t.text) (s : String) : ¬ t.OccursIn (t.apply s) := by
  unfold OccursIn
  rw [toList_apply]
  exact (Text.replaced_replaceAll ht.ne_nil _).absent ht.ne_nil h (.inl rfl)

theorem not_occursIn_apply (ht : Bracketed t.placeholder.toList)
    (hu : Bracketed u.placeholder.toList) (h : ¬ t.ArisesAround u.text) (hs : ¬ t.OccursIn s) :
    ¬ t.OccursIn (u.apply s) := by
  unfold OccursIn
  rw [toList_apply]
  exact (Text.replaced_replaceAll hu.ne_nil _).absent ht.ne_nil h (.inr hs)

theorem spares_of_not_arisesAround (ht : Bracketed t.placeholder.toList)
    (h : ¬ t.ArisesAround v) : t.Spares v := by
  intro a b
  simp only [← String.toList_inj, String.toList_append, toList_apply]
  exact Text.replaceAll_around ht.ne_nil h

theorem apply_bracketed (ht : Bracketed t.placeholder.toList) (hv : Bracketed v.toList)
    (a b : String) : t.apply (a ++ v ++ b) = t.apply a ++ t.apply v ++ t.apply b := by
  simp only [← String.toList_inj, String.toList_append, toList_apply]
  exact ht.replaceAll_around hv

theorem apply_own_placeholder (ht : Bracketed t.placeholder.toList) :
    t.apply t.placeholder = t.text := by
  rw [← String.toList_inj, toList_apply, Text.replaceAll_self ht.ne_nil]

/-- A token leaves the placeholders of others alone. -/
theorem spares_bracketed (ht : Bracketed t.placeholder.toList) (hv : Bracketed v.toList)
    (h : t.placeholder ≠ v) : t.Spares v := by
  intro a b
  have hn : ¬ t.OccursIn v := fun ho => h (String.toList_inj.mp (ht.eq_of_isInfix hv ho))
  rw [apply_bracketed ht hv, apply_of_not_occursIn ht hn]

/-! ## Pools -/

/-- Pools are put into a template one after the other. -/
theorem applyAll_append (l₁ l₂ : List Token) (s : String) :
    applyAll (l₁ ++ l₂) s = applyAll l₂ (applyAll l₁ s) :=
  List.foldl_append

theorem applyAll_cons (t : Token) (pool : List Token) (s : String) :
    applyAll (t :: pool) s = applyAll pool (t.apply s) :=
  rfl

/-- What every token of a pool spares is put through as it is. -/
theorem applyAll_of_spares (h : ∀ t ∈ pool, t.Spares v) (a b : String) :
    applyAll pool (a ++ v ++ b) = applyAll pool a ++ v ++ applyAll pool b := by
  induction pool generalizing a b with
  | nil => rfl
  | cons t pool ih =>
    obtain ⟨ht, hpool⟩ := List.forall_mem_cons.mp h
    rw [applyAll_cons, ht a b, ih hpool]
    rfl

/-- The placeholders of a pool stand in brackets and are different from each other. -/
structure Distinct (pool : List Token) : Prop where
  bracketed : ∀ t ∈ pool, Bracketed t.placeholder.toList
  nodup : (pool.map placeholder).Nodup

/-- No text of the pool brings a placeholder about that is looked for before the text is put in. -/
def Settles (pool : List Token) : Prop :=
  ∀ n u, pool[n]? = some u → ∀ t ∈ pool.take (n + 1), ¬ t.ArisesAround u.text

theorem Settles.of_append (h : Settles pool) (l₁ l₂ : List Token) (hp : pool = l₁ ++ u :: l₂) :
    ∀ t ∈ l₁ ++ [u], ¬ t.ArisesAround u.text := by
  subst hp
  intro t ht
  refine h l₁.length u (by simp) t ?_
  rwa [List.take_length_add_append]

theorem applyAll_of_not_occursIn (hpool : ∀ t ∈ pool, Bracketed t.placeholder.toList)
    (h : ∀ t ∈ pool, ¬ t.OccursIn s) : applyAll pool s = s := by
  induction pool with
  | nil => rfl
  | cons t pool ih =>
    obtain ⟨ht, hpool⟩ := List.forall_mem_cons.mp hpool
    obtain ⟨hs, h⟩ := List.forall_mem_cons.mp h
    rw [applyAll_cons, apply_of_not_occursIn ht hs, ih hpool h]

theorem not_occursIn_applyAll (ht : Bracketed t.placeholder.toList)
    (hpool : ∀ u ∈ pool, Bracketed u.placeholder.toList)
    (h : ∀ u ∈ pool, ¬ t.ArisesAround u.text) (hs : ¬ t.OccursIn s) :
    ¬ t.OccursIn (applyAll pool s) := by
  induction pool generalizing s with
  | nil => exact hs
  | cons u pool ih =>
    obtain ⟨hu, hpool⟩ := List.forall_mem_cons.mp hpool
    obtain ⟨hut, h⟩ := List.forall_mem_cons.mp h
    exact ih hpool h (not_occursIn_apply ht hu hut hs)

theorem Distinct.left {l₁ l₂ : List Token} (h : Distinct (l₁ ++ l₂)) : Distinct l₁ where
  bracketed t ht := h.bracketed t (List.mem_append_left l₂ ht)
  nodup := (List.nodup_append.mp (List.map_append ▸ h.nodup)).1

section Pool

variable {l₁ l₂ : List Token} (hpool : Distinct (l₁ ++ l₂))
include hpool

theorem Distinct.placeholder_ne (ht : t ∈ l₁) (hu : u ∈ l₂) : t.placeholder ≠ u.placeholder :=
  (List.nodup_append.mp (List.map_append ▸ hpool.nodup)).2.2 _ (List.mem_map_of_mem ht) _
    (List.mem_map_of_mem hu)

theorem Distinct.spares_placeholder_right (ht : t ∈ l₁) : ∀ u ∈ l₂, u.Spares t.placeholder :=
  fun u hu => spares_bracketed (hpool.bracketed u (List.mem_append_right l₁ hu))
    (hpool.bracketed t (List.mem_append_left l₂ ht)) (hpool.placeholder_ne ht hu).symm

theorem Distinct.spares_placeholder_left (ht : t ∈ l₂) : ∀ u ∈ l₁, u.Spares t.placeholder :=
  fun u hu => spares_bracketed (hpool.bracketed u (List.mem_append_left l₂ hu))
    (hpool.bracketed t (List.mem_append_right l₁ ht)) (hpool.placeholder_ne hu ht)

end Pool

namespace Distinct

/-- The tokens before a token leave its placeholder alone, and the token itself exchanges it. -/
theorem applyAll_reach {l₁ l₂ : List Token} (hpool : Distinct (l₁ ++ t :: l₂)) (a b : String) :
    applyAll (l₁ ++ t :: l₂) (a ++ t.placeholder ++ b) =
      applyAll l₂ (t.apply (applyAll l₁ a) ++ t.text ++ t.apply (applyAll l₁ b)) := by
  have ht := hpool.bracketed t (List.mem_append_right l₁ List.mem_cons_self)
  rw [applyAll_append, applyAll_of_spares (hpool.spares_placeholder_left List.mem_cons_self),
    applyAll_cons, apply_bracketed ht ht, apply_own_placeholder ht]

/-- The text of a token is put in as it is unless it brings the placeholder of a later token
about. -/
theorem applyAll_insert {l₁ l₂ : List Token} (hpool : Distinct (l₁ ++ t :: l₂))
    (h : ∀ u ∈ l₂, ¬ u.ArisesAround t.text) (a b : String) :
    applyAll (l₁ ++ t :: l₂) (a ++ t.placeholder ++ b) =
      applyAll (l₁ ++ t :: l₂) a ++ t.text ++ applyAll (l₁ ++ t :: l₂) b := by
  have hspares : ∀ u ∈ l₂, u.Spares t.text := fun u hu =>
    spares_of_not_arisesAround
      (hpool.bracketed u (List.mem_append_right l₁ (List.mem_cons_of_mem t hu))) (h u hu)
  rw [hpool.applyAll_reach, applyAll_of_spares hspares]
  simp only [applyAll_append, applyAll_cons]

/-- A resolved template holds no placeholder if no text brings one about. -/
theorem not_occursIn (hpool : Distinct pool) (h : Settles pool) (s : String) :
    ∀ t ∈ pool, ¬ t.OccursIn (applyAll pool s) := by
  intro t ht
  obtain ⟨l₁, l₂, rfl⟩ := List.append_of_mem ht
  have hl₂ : ∀ u ∈ l₂, ¬ t.ArisesAround u.text := by
    intro u hu
    obtain ⟨m₁, m₂, rfl⟩ := List.append_of_mem hu
    refine h.of_append (l₁ ++ t :: m₁) m₂ ?_ t (by simp)
    rw [List.append_assoc, List.cons_append]
  -- The token leaves none of its own, and none comes about behind it.
  rw [applyAll_append, applyAll_cons]
  refine not_occursIn_applyAll (hpool.bracketed t ht)
    (fun u hu => hpool.bracketed u (by simp [hu])) hl₂ ?_
  exact not_occursIn_apply_self (hpool.bracketed t ht) (h.of_append l₁ l₂ rfl t (by simp)) _

/-- Resolving for a second time changes nothing if no text brings a placeholder about. -/
theorem applyAll_applyAll (hpool : Distinct pool) (h : Settles pool) (s : String) :
    applyAll pool (applyAll pool s) = applyAll pool s :=
  applyAll_of_not_occursIn hpool.bracketed (hpool.not_occursIn h s)

/-- A text that can bring a placeholder about does so in some template. The template is the
placeholder for that text between the two parts that are missing, which hold no placeholder. -/
theorem occursIn_of_arisesAround {l₁ l₂ : List Token} (hpool : Distinct (l₁ ++ u :: l₂))
    (ht : t ∈ l₁ ++ [u]) (h : t.ArisesAround u.text) :
    ∃ s, t.OccursIn (applyAll (l₁ ++ u :: l₂) s) := by
  have hcut : Distinct ((l₁ ++ [u]) ++ l₂) := by rwa [List.append_assoc]
  have htb := hcut.left.bracketed t ht
  obtain ⟨a, ha, b, hb, hat, hbt, hocc⟩ := h
  obtain ⟨a', hwa⟩ := (List.mem_inits ..).mp ha
  obtain ⟨b', hwb⟩ := (List.mem_tails ..).mp hb
  have hna : '>' ∉ a :=
    Bracketed.notMem_left (hwa ▸ htb) fun h => hat (by rw [← hwa, h, List.append_nil])
  have hnb : '<' ∉ b :=
    Bracketed.notMem_right (hwb ▸ htb) fun h => hbt (by rw [← hwb, h, List.nil_append])
  have left_alone {c : List Char} (hc : '>' ∉ c ∨ '<' ∉ c) :
      u.apply (applyAll l₁ (String.ofList c)) = String.ofList c := by
    have hno {v : Token} (hv : v ∈ l₁ ++ [u]) : ¬ v.OccursIn (String.ofList c) := by
      intro hi
      rw [OccursIn, String.toList_ofList] at hi
      exact hc.elim (· (hi.subset (hcut.left.bracketed v hv).close_mem))
        (· (hi.subset (hcut.left.bracketed v hv).open_mem))
    rw [applyAll_of_not_occursIn hcut.left.left.bracketed
      fun v hv => hno (List.mem_append_left [u] hv)]
    exact apply_of_not_occursIn (hcut.left.bracketed u (by simp)) (hno (by simp))
  refine ⟨String.ofList a ++ u.placeholder ++ String.ofList b, ?_⟩
  obtain ⟨x, y, hxy⟩ := hocc
  have hmid : String.ofList a ++ u.text ++ String.ofList b =
      String.ofList x ++ t.placeholder ++ String.ofList y := by
    simp only [← String.toList_inj, String.toList_append, String.toList_ofList, hxy]
  rw [hpool.applyAll_reach, left_alone (.inl hna), left_alone (.inr hnb), hmid,
    applyAll_of_spares (hcut.spares_placeholder_right ht), OccursIn, String.toList_append,
    String.toList_append]
  exact List.infix_append ..

/-- A pool leaves none of its placeholders in any text just if no text of the pool brings one about
that has been looked for. -/
theorem settles_iff (hpool : Distinct pool) :
    (∀ s, ∀ t ∈ pool, ¬ t.OccursIn (applyAll pool s)) ↔ Settles pool := by
  refine ⟨?_, fun h s => hpool.not_occursIn h s⟩
  intro h n u hn t ht harises
  obtain ⟨hlt, rfl⟩ := List.getElem?_eq_some_iff.mp hn
  rw [List.take_succ_eq_append_getElem hlt] at ht
  have hcut : pool = pool.take n ++ pool[n] :: pool.drop (n + 1) := by
    rw [List.getElem_cons_drop, List.take_append_drop]
  obtain ⟨s, hs⟩ := (hcut ▸ hpool).occursIn_of_arisesAround ht harises
  exact h s t (List.mem_of_mem_take (List.take_succ_eq_append_getElem hlt ▸ ht)) (hcut ▸ hs)

end Distinct
end Relabel.Token
