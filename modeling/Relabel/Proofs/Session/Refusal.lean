import Relabel.Proofs.Preset.Store
import Relabel.Proofs.Session.Consistency
import Relabel.Proofs.World.Quiet

/-!
# Edits that fail

An edit of the fields and a look at the preset file do what can fail first, and change the session
last. So they do all or nothing: an error leaves the session as it was.

* `SessionAct.Whole`: operations that do all or nothing, and how they are put together.
* `Session.quiet_setFind`, `Session.quiet_reloadPresets`: these edits only say something.
* `Session.error_iff_of_setFind` and the like: when they fail.
* `Session.failed_edit_keeps_session`: a failed edit leaves the session as it was.
-/

namespace Relabel

variable {α β : Type}

/-! ## All or nothing -/

namespace SessionAct

/-- The operation leaves the session as it is. -/
def Spares (m : SessionAct α) : Prop := ∀ s w, (on m s w).2.1 = s

/-- The operation does not fail. -/
def Succeeds (m : SessionAct α) : Prop := ∀ s w, ∃ a, (on m s w).1 = .ok a

/-- The operation leaves the session as it is if it fails. -/
def Whole (m : SessionAct α) : Prop := ∀ s w e, (on m s w).1 = .error e → (on m s w).2.1 = s

namespace Spares

theorem pure (a : α) : Spares (pure a : SessionAct α) := fun _ _ => rfl

theorem get : Spares (get : SessionAct Session) := fun _ _ => rfl

theorem deed (m : Deed α) : Spares (deed m) := fun _ _ => rfl

theorem act (m : Act α) : Spares (act m) := by
  intro s w
  rw [on_act]

/-- What leaves the session alone leaves it alone when it fails. -/
theorem whole {m : SessionAct α} (h : m.Spares) : m.Whole := fun s w _ _ => h s w

end Spares

namespace Whole

theorem of_succeeds {m : SessionAct α} (h : m.Succeeds) : m.Whole := by
  intro s w e he
  obtain ⟨a, ha⟩ := h s w
  cases ha.symm.trans he

/-- What spares the session may come first, whether or not it fails. -/
theorem bind_of_spares {m : SessionAct α} {f : α → SessionAct β} (hm : m.Spares)
    (hf : ∀ a, (f a).Whole) : (m >>= f).Whole := by
  intro s w e he
  have hs := hm s w
  rw [on_bind] at he ⊢
  generalize on m s w = r at hs he ⊢
  obtain ⟨_ | a, s₁, w₁⟩ := r
  · exact hs
  · cases hs
    exact hf a _ w₁ e he

/-- What does not fail may come last. -/
theorem bind_of_succeeds {m : SessionAct α} {f : α → SessionAct β} (hm : m.Whole)
    (hf : ∀ a, (f a).Succeeds) : (m >>= f).Whole := by
  intro s w e he
  have hs := hm s w
  rw [on_bind] at he ⊢
  generalize on m s w = r at hs he ⊢
  obtain ⟨e₁ | a, s₁, w₁⟩ := r
  · exact hs e₁ rfl
  · obtain ⟨b, hb⟩ := hf a s₁ w₁
    cases hb.symm.trans he

end Whole
end SessionAct

/-! ## Too much for the engine -/

namespace Find
namespace Engine

theorem weight_cons_of_not_isMeta {c : Char} (h : isMeta c = false) (s : List Char) :
    weight (c :: s) = 32 * c.utf8Size + weight s := by
  refine weight.eq_4 c s ?_ ?_
  · rintro _ _ rfl
    cases h
  · rintro rfl
    cases h

/-- An escape is never cut off from what it escapes. -/
theorem weight_sourceOf_append (mode : Mode) (c : Char) (s : List Char) :
    weight (sourceOf mode c ++ s) = weight (sourceOf mode c) + weight s := by
  have hsource (p : Piece) : weight (p.source ++ s) = weight p.source + weight s := by
    cases p with
    | char c =>
      rw [Piece.source, escape]
      cases hc : isMeta c with
      | true => simp [weight]
      | false => simp [weight_cons_of_not_isMeta hc, weight]
    | one | run | many | atStart | atEnd => simp [Piece.source, weight, Nat.add_assoc]
  unfold sourceOf
  split
  · simp [weight, Nat.add_assoc]
  · exact hsource _

/-- A character that is repeated weighs as often as it is repeated. -/
theorem weight_source_replicate (mode : Mode) (c : Char) (n : Nat) :
    weight (source mode (String.ofList (List.replicate n c))).toList =
      n * weight (sourceOf mode c) := by
  rw [source, String.toList_ofList, String.toList_ofList]
  induction n with
  | zero => rw [List.replicate_zero, List.flatMap_nil, weight, Nat.zero_mul]
  | succ n ih =>
    rw [List.replicate_succ, List.flatMap_cons, weight_sourceOf_append, ih, Nat.succ_mul,
      Nat.add_comm]

end Engine

attribute [local instance] Engine.sized in
/-- By the estimate there is no room for a character that is repeated too often. -/
theorem Pattern.compile_replicate {c : Char} {n : Nat} {mode : Mode}
    (h : Engine.room < n * Engine.weight (sourceOf mode c)) :
    ∃ e, compile (String.ofList (List.replicate n c)) mode = .error e := by
  have hne : String.ofList (List.replicate n c) ≠ "" := by
    intro heq
    rw [← String.ofList_nil, String.ofList_inj, List.replicate_eq_nil_iff] at heq
    rw [heq, Nat.zero_mul] at h
    exact Nat.not_lt_zero _ h
  rw [← Engine.weight_source_replicate] at h
  exact ⟨_, compile_of_refused hne (if_pos h)⟩

end Find

/-! ## The preset file -/

/-- The preset file cannot be taken over if it is there and cannot be read, or holds no catalogue. -/
theorem Store.readCatalogue_eq_error_iff {d : Disk} {path : Path} {e : Error} :
    readCatalogue d path = .error e ↔ d.pathExists path = true ∧
      ((∃ fault, d.readText path = .error fault ∧ e = .persistence "read" path fault.message) ∨
        ∃ text problem, d.readText path = .ok text ∧ Catalogue.ofText text = .error problem ∧
          e = .persistence "parse" path problem.message) := by
  unfold readCatalogue
  cases d.pathExists path with
  | false => simp
  | true =>
    cases d.readText path with
    | error fault => simp [eq_comm]
    | ok text =>
      cases hc : Catalogue.ofText text with
      | error problem => simp [hc, eq_comm]
      | ok c => simp [hc]

/-! ## Edits -/

namespace Session

variable {s : Session} {w : World} {e : Error}

theorem quiet_adopt (edit : Session → Except Error Session) : (adopt edit).Quiet := by
  intro s w
  rw [on_adopt]
  cases edit s with
  | error e => exact .refl w
  | ok s' => exact .tell ..

/-- An edit is computed before it is made. -/
theorem whole_adopt (edit : Session → Except Error Session) : (adopt edit).Whole := by
  intro s w e he
  rw [on_adopt] at he ⊢
  cases h : edit s with
  | error e₁ => rfl
  | ok s₁ =>
    rw [h] at he
    cases he

theorem quiet_ensureOpen : ensureOpen.Quiet := by
  intro s w
  rw [on_ensureOpen]
  exact .refl w

theorem spares_ensureOpen : ensureOpen.Spares := by
  intro s w
  rw [on_ensureOpen]

theorem quiet_setReplace (text : String) : (setReplace text).Quiet :=
  .bind quiet_ensureOpen fun _ => .modify _

/-- The file is read and not touched. -/
theorem quiet_reloadPresets : reloadPresets.Quiet := by
  unfold reloadPresets
  refine .bind quiet_ensureOpen fun _ => .bind .get fun s => .bind ?_ fun store => .modify _
  intro s' w
  rw [SessionAct.on_act, Store.on_reload]
  exact .tell ..

theorem whole_reloadPresets : reloadPresets.Whole := by
  unfold reloadPresets
  refine .bind_of_spares spares_ensureOpen fun _ => .bind_of_spares .get fun s => ?_
  exact .bind_of_spares (.act _) fun store => .of_succeeds fun _ _ => ⟨_, rfl⟩

theorem error_iff_of_reloadPresets (w : World) (h : s.state.isFinal = false) :
    (reloadPresets.on s w).1 = .error e ↔ Store.readCatalogue w.disk s.store.path = .error e := by
  rw [on_reloadPresets w h, Store.on_reload]
  cases Store.readCatalogue w.disk s.store.path <;> simp [Except.map]

/-! ## Edits that need the engine -/

section

variable [Find.Engine] (text name : String)

theorem quiet_setFind : (setFind text).Quiet :=
  .bind quiet_ensureOpen fun _ => quiet_adopt _

/-- A preset is taken from memory, so that nothing is read for it. -/
theorem quiet_selectPreset : (selectPreset name).Quiet := by
  unfold selectPreset
  refine .bind quiet_ensureOpen fun _ => .bind .get fun s => ?_
  split
  · exact .bind (quiet_adopt _) fun _ => .pure _
  · exact .bind (.deed (.tell _)) fun _ => .pure _

theorem whole_setFind : (setFind text).Whole :=
  .bind_of_spares spares_ensureOpen fun _ => whole_adopt _

theorem whole_selectPreset : (selectPreset name).Whole := by
  unfold selectPreset
  refine .bind_of_spares spares_ensureOpen fun _ => .bind_of_spares .get fun s => ?_
  split
  · -- Both fields are computed before one of them is set.
    exact .bind_of_succeeds (whole_adopt _) fun _ _ _ => ⟨_, rfl⟩
  · exact .bind_of_spares (.deed _) fun _ => (SessionAct.Spares.pure _).whole

/-- A find text cannot be set just if it cannot be compiled. -/
theorem withFind_eq_error_iff {text : String} :
    s.withFind text = .error e ↔ Find.Pattern.compile text s.mode = .error e := by
  unfold withFind
  cases Find.Pattern.compile text s.mode <;> simp [bind, Except.bind]

/-- A preset cannot be taken over just if its find text cannot be compiled. -/
theorem withPreset_eq_error_iff {p : Preset} :
    s.withPreset p = .error e ↔ Find.Pattern.compile p.find s.mode = .error e := by
  rw [← withFind_eq_error_iff, withPreset]
  cases s.withFind p.find <;> simp [bind, Except.bind]

theorem error_iff_of_setFind (w : World) (h : s.state.isFinal = false) :
    ((setFind text).on s w).1 = .error e ↔ Find.Pattern.compile text s.mode = .error e := by
  rw [on_setFind text w h, on_adopt, ← withFind_eq_error_iff]
  cases s.withFind text <;> simp

theorem error_iff_of_selectPreset (w : World) (h : s.state.isFinal = false) :
    ((selectPreset name).on s w).1 = .error e ↔
      ∃ p, s.store.get? name = some p ∧ Find.Pattern.compile p.find s.mode = .error e := by
  rw [on_selectPreset name w h]
  cases s.store.get? name with
  | none => simp
  | some p =>
    simp only [← withPreset_eq_error_iff, Option.some.injEq, exists_eq_left']
    cases s.withPreset p <;> simp

end

/-- On an open session, setting the find text fails if the text cannot be compiled, selecting a preset
if its find text cannot, and reading the presets again if the file cannot be read or holds no
catalogue. Each failure leaves the session with its fields, names and presets as it was, and so does
the selection of a preset that does not exist. -/
theorem failed_edit_keeps_session [Find.Engine] (w : World) (h : s.state.isFinal = false)
    (text name : String) (e : Error) :
    let found := (setFind text).on s w
    let chosen := (selectPreset name).on s w
    let reread := reloadPresets.on s w
    ((found.1 = .error e ↔ Find.Pattern.compile text s.mode = .error e) ∧
      (found.1 = .error e → found.2.1 = s ∧ w.Says found.2.2)) ∧
    ((chosen.1 = .error e ↔
        ∃ p, s.store.get? name = some p ∧ Find.Pattern.compile p.find s.mode = .error e) ∧
      (chosen.1 = .error e → chosen.2.1 = s ∧ w.Says chosen.2.2)) ∧
    ((reread.1 = .error e ↔ w.disk.pathExists s.store.path = true ∧
        ((∃ fault, w.disk.readText s.store.path = .error fault ∧
            e = .persistence "read" s.store.path fault.message) ∨
          ∃ content problem, w.disk.readText s.store.path = .ok content ∧
            Catalogue.ofText content = .error problem ∧
            e = .persistence "parse" s.store.path problem.message)) ∧
      (reread.1 = .error e → reread.2.1 = s ∧ w.Says reread.2.2)) ∧
    (s.store.get? name = none →
      chosen.1 = .ok false ∧ chosen.2.1 = s ∧ w.Says chosen.2.2) := by
  intro found chosen reread
  refine ⟨⟨error_iff_of_setFind text w h, fun he => ?_⟩,
    ⟨error_iff_of_selectPreset name w h, fun he => ?_⟩, ⟨?_, fun he => ?_⟩, fun hnone => ?_⟩
  · exact ⟨whole_setFind text s w e he, quiet_setFind text s w⟩
  · exact ⟨whole_selectPreset name s w e he, quiet_selectPreset name s w⟩
  · rw [error_iff_of_reloadPresets w h, Store.readCatalogue_eq_error_iff]
  · exact ⟨whole_reloadPresets s w e he, quiet_reloadPresets s w⟩
  · have hon := on_selectPreset name w h
    rw [hnone] at hon
    exact ⟨congrArg Prod.fst hon, congrArg (·.2.1) hon, quiet_selectPreset name s w⟩

/-- A find text that there is no room for. -/
@[irreducible]
def wildText : String := String.ofList (List.replicate 20000 '*')

/-- A world with a directory in the place of the preset file. -/
def blockedWorld : World :=
  ⟨⟨[.folder 0 [(Utf8.encode "p", 1)], .folder 0 []], 0⟩, [], [], ⟨2024, 2, 21, 15, 7, 0⟩,
    .fixed none true [], [], 0⟩

/-- Two presets, the second one with this find text. -/
def pairStore : Store :=
  ⟨.ofString "p", ⟨"", "", [⟨"a", "s", "y"⟩, ⟨"b", wildText, ""⟩]⟩, true⟩

/-- One item. -/
def loneSelection : Selection := ⟨[.listed "sh010" .clip (.ok none) false], []⟩

def blockedSetting : Setting := ⟨blockedWorld.now, "feature", "kieran"⟩

section

attribute [local instance] Find.Engine.sized

/-- The session at its start, and the world then. -/
def begunPair : Session × World :=
  let s := blank loneSelection blockedSetting .none pairStore .anySequence
  (((loadPreset ⟨"a", "s", "y"⟩).on s blockedWorld).2.1,
    (Act.on (begin loneSelection blockedSetting .none pairStore .anySequence) blockedWorld).2)

/-- The session when both fields have been edited. -/
def previewingPair : Session := (play [⟨id, .setFind "sh"⟩, ⟨id, .setReplace "x"⟩] begunPair).1

theorem reachable_previewingPair :
    Reachable loneSelection blockedSetting .none .anySequence previewingPair :=
  ⟨pairStore, blockedWorld, _, begunPair.2, _, rfl, rfl⟩

theorem get?_pairStore :
    pairStore.get? "b" = some ⟨"b", wildText, ""⟩ ∧ pairStore.get? "c" = none :=
  ⟨rfl, rfl⟩

theorem open_previewingPair : previewingPair.state.isFinal = false ∧
    previewingPair.store = pairStore ∧ previewingPair.proposed = ["x010"] :=
  ⟨rfl, rfl, by decide +kernel⟩

/-- In a session that has come to a preview all three edits fail. -/
theorem failed_edit_keeps_preview :
    let s := previewingPair
    let w := blockedWorld
    Reachable loneSelection blockedSetting .none .anySequence s ∧ s.state.isFinal = false ∧
      s.proposed = ["x010"] ∧
      (∃ e, ((setFind wildText).on s w).1 = .error e ∧ ((setFind wildText).on s w).2.1 = s) ∧
      (∃ e, ((selectPreset "b").on s w).1 = .error e ∧ ((selectPreset "b").on s w).2.1 = s) ∧
      (∃ e, (reloadPresets.on s w).1 = .error e ∧ (reloadPresets.on s w).2.1 = s) ∧
      ((selectPreset "c").on s w).1 = .ok false ∧ ((selectPreset "c").on s w).2.1 = s := by
  intro s w
  obtain ⟨e, hwild⟩ : ∃ e, Find.Pattern.compile wildText s.mode = .error e := by
    unfold wildText
    exact Find.Pattern.compile_replicate (by decide)
  obtain ⟨ho, hstore, hproposed⟩ := open_previewingPair
  obtain ⟨hget, hnone⟩ := get?_pairStore
  rw [← hstore] at hget hnone
  have hunread : w.disk.pathExists s.store.path = true ∧
      w.disk.readText s.store.path = .error .isFolder := by
    have hpath : s.store.path = .ofString "p" := congrArg Store.path hstore
    rw [hpath]
    decide +kernel
  obtain ⟨⟨hfind, hkeepsFind⟩, ⟨hselect, hkeepsSelect⟩, -⟩ :=
    failed_edit_keeps_session w ho wildText "b" e
  obtain ⟨-, -, ⟨hreload, hkeepsReload⟩, hunknown⟩ := failed_edit_keeps_session w ho wildText "c"
    (.persistence "read" s.store.path (Disk.Fault.isFolder).message)
  have hfind := hfind.mpr hwild
  have hselect := hselect.mpr ⟨_, hget, hwild⟩
  have hreload := hreload.mpr ⟨hunread.1, .inl ⟨_, hunread.2, rfl⟩⟩
  obtain ⟨hfalse, hsame, -⟩ := hunknown hnone
  exact ⟨reachable_previewingPair, ho, hproposed, ⟨_, hfind, (hkeepsFind hfind).1⟩,
    ⟨_, hselect, (hkeepsSelect hselect).1⟩, ⟨_, hreload, (hkeepsReload hreload).1⟩, hfalse, hsame⟩

end

end Session
end Relabel
