import Relabel.Proofs.Token.Resolution

/-!
# Putting all tokens in at once

A pool of tokens is put into a template one token after the other. Where no text that is put in
opens a bracket, and where the template closes each bracket before it opens another one, this comes
to the same as reading the template once from left to right, so that the order of the pool does not
matter.

* `Token.scan`: reads a template once.
* `Token.IsFlat`: no bracket is opened within another one.
* `Token.Distinct.applyAll_eq_substitute`: the two ways come to the same.
* `Resolver.resolve_at_once`: they do so for the tokens of a run.
-/

namespace Relabel.Token

open Text (replaceAll Seam)

/-! ## Reading once -/

/-- Reads a text once and puts `f piece` for each piece in brackets. The piece that has been opened
and not closed yet is handed on; if it is never closed it stays as it is. -/
def scan (f : List Char → List Char) : (opened : Option (List Char)) → List Char → List Char
  | none, [] => []
  | some piece, [] => piece
  | none, c :: s => if c = '<' then scan f (some ['<']) s else c :: scan f none s
  | some piece, c :: s =>
    if c = '>' then f (piece ++ ['>']) ++ scan f none s else scan f (some (piece ++ [c])) s

/-- What a piece in brackets stands for: the text of the token whose placeholder it is, and itself
if there is none. -/
def standsFor (pool : List Token) (piece : List Char) : List Char :=
  ((pool.find? (·.placeholder.toList = piece)).map (·.text.toList)).getD piece

/-- The template with the texts of all tokens put in at once. -/
def substitute (pool : List Token) (template : String) : String :=
  String.ofList (scan (standsFor pool) none template.toList)

/-- Where a bracket is opened and one is closed later, none is opened before that. -/
def IsFlat (s : List Char) : Prop :=
  ∀ t ∈ s.tails, t.head? = some '<' → '>' ∈ t → '<' ∉ t.tail.takeWhile (· ≠ '>')

instance (s : List Char) : Decidable (IsFlat s) := inferInstanceAs (Decidable (∀ t ∈ s.tails, _))

theorem IsFlat.of_suffix {s t : List Char} (h : IsFlat s) (ht : t <:+ s) : IsFlat t :=
  fun r hr => h r ((List.mem_tails ..).mpr (((List.mem_tails ..).mp hr).trans ht))

/-- No bracket is opened before the one that closes the piece. -/
theorem IsFlat.notMem_of_closed {x y z : List Char} (h : IsFlat (x ++ '<' :: (y ++ '>' :: z)))
    (hy : '>' ∉ y) : '<' ∉ y := by
  have hno := h ('<' :: (y ++ '>' :: z)) ((List.mem_tails ..).mpr (List.suffix_append ..)) rfl
    (by simp)
  have hne : ∀ c ∈ y, decide (c ≠ '>') = true :=
    fun c hc => decide_eq_true fun heq => hy (heq ▸ hc)
  rwa [List.tail_cons, List.takeWhile_append_of_pos hne, List.takeWhile_cons_of_neg (by decide),
    List.append_nil] at hno

theorem bracketed_of_notMem {y : List Char} (ho : '<' ∉ y) (hc : '>' ∉ y) :
    Bracketed ('<' :: (y ++ ['>'])) where
  head := rfl
  last := by rw [← List.cons_append, List.getLast?_concat]
  tail := by simpa using ho
  init := by
    rw [← List.cons_append, List.dropLast_concat]
    simpa using hc

section

variable {v : List Char}

theorem scan_of_notMem (f : List Char → List Char) (h : '<' ∉ v) (s : List Char) :
    scan f none (v ++ s) = v ++ scan f none s := by
  induction v with
  | nil => rfl
  | cons c v ih =>
    obtain ⟨hc, hv⟩ := List.ne_and_not_mem_of_not_mem_cons h
    rw [List.cons_append, scan, if_neg (Ne.symm hc), ih hv, List.cons_append]

/-- A piece that is closed is looked up. -/
theorem scan_closed (f : List Char → List Char) (h : '>' ∉ v) (piece s : List Char) :
    scan f (some piece) (v ++ '>' :: s) = f (piece ++ v ++ ['>']) ++ scan f none s := by
  induction v generalizing piece with
  | nil => rw [List.nil_append, scan, if_pos rfl, List.append_nil]
  | cons c v ih =>
    obtain ⟨hc, hv⟩ := List.ne_and_not_mem_of_not_mem_cons h
    rw [List.cons_append, scan, if_neg (Ne.symm hc), ih hv]
    simp

/-- A piece that is not closed stays as it is. -/
theorem scan_open (f : List Char → List Char) (h : '>' ∉ v) (piece : List Char) :
    scan f (some piece) v = piece ++ v := by
  induction v generalizing piece with
  | nil => rw [scan, List.append_nil]
  | cons c v ih =>
    obtain ⟨hc, hv⟩ := List.ne_and_not_mem_of_not_mem_cons h
    rw [scan, if_neg (Ne.symm hc), ih hv]
    simp

end

/-! ## One token after the other -/

variable {pool pool' : List Token} {t u : Token} {s v p : String}

/-- No placeholder begins where no bracket is opened. -/
theorem Bracketed.seam_of_notMem {w x z : List Char} (h : Bracketed w) (hx : '<' ∉ x) :
    Seam w x z := by
  rintro a b rfl ha - hax -
  refine hx (hax.subset (List.mem_of_head? ?_))
  rw [← List.head?_append_of_ne_nil a ha, h.head]

theorem apply_append_of_notMem (ht : Bracketed t.placeholder.toList) (hv : '<' ∉ v.toList)
    (s : String) : t.apply (v ++ s) = v ++ t.apply s := by
  have hno : ¬ t.placeholder.toList <:+: v.toList := fun h => hv (h.subset ht.open_mem)
  simp only [← String.toList_inj, String.toList_append, toList_apply]
  rw [Text.replaceAll_append ht.ne_nil (ht.seam_of_notMem hv),
    Text.replaceAll_of_absent ht.ne_nil hno]

theorem applyAll_append_of_notMem (hpool : ∀ t ∈ pool, Bracketed t.placeholder.toList)
    (hv : '<' ∉ v.toList) (s : String) : applyAll pool (v ++ s) = v ++ applyAll pool s := by
  induction pool generalizing s with
  | nil => rfl
  | cons t pool ih =>
    obtain ⟨ht, hpool⟩ := List.forall_mem_cons.mp hpool
    rw [applyAll_cons, apply_append_of_notMem ht hv, ih hpool, applyAll_cons]

theorem applyAll_of_notMem (hpool : ∀ t ∈ pool, Bracketed t.placeholder.toList)
    (hs : '<' ∉ s.toList) : applyAll pool s = s :=
  applyAll_of_not_occursIn hpool fun t ht hocc => hs (hocc.subset (hpool t ht).open_mem)

namespace Distinct

/-- A token is found by its placeholder. -/
theorem find?_eq_some (hpool : Distinct pool) (ht : t ∈ pool) :
    pool.find? (·.placeholder.toList = t.placeholder.toList) = some t := by
  obtain ⟨l₁, l₂, rfl⟩ := List.append_of_mem ht
  refine List.find?_eq_some_iff_append.mpr ⟨by simp, l₁, l₂, rfl, fun u hu => ?_⟩
  have hne := hpool.placeholder_ne hu List.mem_cons_self
  simpa [String.toList_inj] using hne

theorem standsFor_placeholder (hpool : Distinct pool) (ht : t ∈ pool) :
    standsFor pool t.placeholder.toList = t.text.toList := by
  rw [standsFor, hpool.find?_eq_some ht]
  rfl

theorem perm (hpool : Distinct pool) (h : pool'.Perm pool) : Distinct pool' where
  bracketed t ht := hpool.bracketed t (h.mem_iff.mp ht)
  nodup := (h.map placeholder).nodup_iff.mpr hpool.nodup

end Distinct

theorem standsFor_of_ne (h : ∀ t ∈ pool, t.placeholder ≠ p) :
    standsFor pool p.toList = p.toList := by
  have hnone : pool.find? (·.placeholder.toList = p.toList) = none :=
    List.find?_eq_none.mpr fun t ht => by simpa [String.toList_inj] using h t ht
  rw [standsFor, hnone]
  rfl

/-- A piece in brackets at the front of a text becomes what it stands for, and nothing else of the
text plays a part in that. -/
theorem Distinct.applyAll_piece (hpool : Distinct pool) (hv : ∀ t ∈ pool, '<' ∉ t.text.toList)
    (hp : Bracketed p.toList) (s : String) :
    applyAll pool (p ++ s) = String.ofList (standsFor pool p.toList) ++ applyAll pool s := by
  by_cases h : ∃ t ∈ pool, t.placeholder = p
  · obtain ⟨t, ht, rfl⟩ := h
    rw [hpool.standsFor_placeholder ht, String.ofList_toList]
    obtain ⟨l₁, l₂, rfl⟩ := List.append_of_mem ht
    have hl₁ : ∀ u ∈ l₁, Bracketed u.placeholder.toList :=
      fun u hu => hpool.bracketed u (List.mem_append_left _ hu)
    have hl₂ : ∀ u ∈ l₂, Bracketed u.placeholder.toList :=
      fun u hu => hpool.bracketed u (List.mem_append_right l₁ (List.mem_cons_of_mem t hu))
    have hnil : applyAll l₁ "" = "" := applyAll_of_notMem hl₁ List.not_mem_nil
    have hreach := hpool.applyAll_reach "" s
    rw [hnil, apply_of_not_occursIn (hpool.bracketed t ht), String.empty_append,
      String.empty_append, applyAll_append_of_notMem hl₂ (hv t ht)] at hreach
    · rw [hreach, applyAll_append, applyAll_cons]
    · exact fun hocc => List.not_mem_nil (hocc.subset (hpool.bracketed t ht).open_mem)
  · have hne : ∀ t ∈ pool, t.placeholder ≠ p := fun t ht heq => h ⟨t, ht, heq⟩
    have hspares : ∀ t ∈ pool, t.Spares p :=
      fun t ht => spares_bracketed (hpool.bracketed t ht) hp (hne t ht)
    have haround := applyAll_of_spares hspares "" s
    have hnil : applyAll pool "" = "" := applyAll_of_notMem hpool.bracketed List.not_mem_nil
    rw [hnil, String.empty_append] at haround
    rw [standsFor_of_ne hne, String.ofList_toList, haround]

/-- Putting the tokens of a pool in one after the other comes to putting them in at once. -/
theorem Distinct.applyAll_ofList (hpool : Distinct pool) (hv : ∀ t ∈ pool, '<' ∉ t.text.toList)
    {s : List Char} (hs : IsFlat s) :
    applyAll pool (String.ofList s) = String.ofList (scan (standsFor pool) none s) := by
  -- By the length of the template, since what follows on a piece is shorter.
  induction hn : s.length using Nat.strong_induction_on generalizing s with
  | h n ih =>
  subst hn
  by_cases hopen : '<' ∈ s
  · obtain ⟨x, r, rfl, hx⟩ := List.eq_append_cons_of_mem hopen
    rw [scan_of_notMem _ hx, scan, if_pos rfl, String.ofList_append, String.ofList_append,
      applyAll_append_of_notMem hpool.bracketed (by rwa [String.toList_ofList])]
    congr 1
    by_cases hclose : '>' ∈ r
    · obtain ⟨y, z, rfl, hy⟩ := List.eq_append_cons_of_mem hclose
      have hp : Bracketed ('<' :: (y ++ ['>'])) := bracketed_of_notMem (hs.notMem_of_closed hy) hy
      have hz : IsFlat z := hs.of_suffix ⟨x ++ '<' :: (y ++ ['>']), by simp⟩
      have hcut : '<' :: (y ++ '>' :: z) = '<' :: (y ++ ['>']) ++ z := by simp
      rw [scan_closed _ hy, hcut, String.ofList_append, String.ofList_append,
        hpool.applyAll_piece hv (by rwa [String.toList_ofList]), String.toList_ofList,
        ih z.length (by simp; omega) hz rfl]
      rfl
    · rw [scan_open _ hclose]
      refine applyAll_of_not_occursIn hpool.bracketed fun t ht hocc => ?_
      have hmem := hocc.subset (hpool.bracketed t ht).close_mem
      rw [String.toList_ofList] at hmem
      simp [hclose] at hmem
  · have hkept := scan_of_notMem (standsFor pool) hopen []
    rw [List.append_nil, scan, List.append_nil] at hkept
    rw [hkept]
    exact applyAll_of_notMem hpool.bracketed (by rwa [String.toList_ofList])

theorem Distinct.applyAll_eq_substitute (hpool : Distinct pool)
    (hv : ∀ t ∈ pool, '<' ∉ t.text.toList) (hs : IsFlat s.toList) :
    applyAll pool s = substitute pool s := by
  have h := hpool.applyAll_ofList hv hs
  rwa [String.ofList_toList] at h

/-! ## The order of a pool -/

theorem Distinct.standsFor_perm (hpool : Distinct pool) (h : pool'.Perm pool) :
    standsFor pool' = standsFor pool := by
  funext piece
  by_cases hp : ∃ t ∈ pool, t.placeholder.toList = piece
  · obtain ⟨t, ht, rfl⟩ := hp
    rw [hpool.standsFor_placeholder ht, (hpool.perm h).standsFor_placeholder (h.mem_iff.mpr ht)]
  · have hne : ∀ t ∈ pool, t.placeholder ≠ String.ofList piece :=
      fun t ht heq => hp ⟨t, ht, by rw [heq, String.toList_ofList]⟩
    have hne' : ∀ t ∈ pool', t.placeholder ≠ String.ofList piece :=
      fun t ht => hne t (h.mem_iff.mp ht)
    have h₁ := standsFor_of_ne hne
    have h₂ := standsFor_of_ne hne'
    rw [String.toList_ofList] at h₁ h₂
    rw [h₁, h₂]

theorem Distinct.applyAll_perm (hpool : Distinct pool) (hv : ∀ t ∈ pool, '<' ∉ t.text.toList)
    (hs : IsFlat s.toList) (h : pool'.Perm pool) : applyAll pool' s = applyAll pool s := by
  rw [hpool.applyAll_eq_substitute hv hs,
    (hpool.perm h).applyAll_eq_substitute (fun t ht => hv t (h.mem_iff.mp ht)) hs, substitute,
    substitute, hpool.standsFor_perm h]

end Token

namespace Resolver

/-- Where no text of a member's tokens opens a bracket, a flat template is resolved by reading it
once from left to right: each piece in brackets that is a placeholder gives way to its text, and all
else stays as it is. The order of the tokens does not matter. -/
theorem resolve_at_once (setting : Setting) (selection : Selection) (lookup : Lookup) (i : Nat)
    (template : String)
    (hv : ∀ t ∈ (ofSelection setting selection lookup).pool i, '<' ∉ t.text.toList)
    (hs : Token.IsFlat template.toList) :
    let r := ofSelection setting selection lookup
    r.resolve i template = Token.substitute (r.pool i) template ∧
      ∀ pool, pool.Perm (r.pool i) → Token.applyAll pool template = r.resolve i template := by
  intro r
  have hpool : Token.Distinct (r.pool i) := distinct_pool setting selection lookup i
  exact ⟨hpool.applyAll_eq_substitute hv hs, fun pool h => hpool.applyAll_perm hv hs h⟩

/-- A project whose name closes a bracket, a shot without a name, a piece that is no placeholder and
one that is not closed. -/
theorem resolve_at_once_stray :
    let setting : Setting := ⟨⟨2024, 2, 21, 15, 7, 0⟩, "a>b", "kieran"⟩
    let r := ofSelection setting (.ofItems [.listed "clip" .clip (.ok none) false]) .shotName
    let template := "<project><shot name>><x><us<er"
    (∀ t ∈ r.pool 0, '<' ∉ t.text.toList) ∧ Token.IsFlat template.toList ∧
      Token.substitute (r.pool 0) template = "a>b><x><us<er" ∧
      r.resolve 0 template = "a>b><x><us<er" ∧
      Token.applyAll (r.pool 0).reverse template = "a>b><x><us<er" := by
  intro setting r template
  have hv : ∀ t ∈ r.pool 0, '<' ∉ t.text.toList := by decide +kernel
  have hs : Token.IsFlat template.toList := by decide +kernel
  have hread : Token.substitute (r.pool 0) template = "a>b><x><us<er" := by decide +kernel
  obtain ⟨hresolve, hperm⟩ := resolve_at_once setting
    (.ofItems [.listed "clip" .clip (.ok none) false]) .shotName 0 template hv hs
  rw [hread] at hresolve
  exact ⟨hv, hs, hread, hresolve, (hperm _ (List.reverse_perm _)).trans hresolve⟩

end Resolver
end Relabel
