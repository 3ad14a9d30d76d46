import Relabel.Proofs.Session.Turn

/-!
# A clean store agrees with its file

A store is worked on alone, or by a session that has been started with it and that may give it back.
As long as nobody else changes the file, a store without unsaved edits holds what the file holds,
whatever has gone wrong on the way.

* `Store.Operation`: what can be asked of a store that is in no session.
* `Store.Undisturbed`: nobody else changes the file while a store is worked on.
* `Store.History`: what can become of the store of a file and of the world around it.
* `Store.Agrees`: the invariant, which every step of a history preserves.
* `Store.agrees_of_history`: a clean store is loaded from its file again.
-/

namespace Relabel

/-- A store, alone or in a session. -/
inductive Holder where
  | alone (store : Store)
  | within (s : Session)

def Holder.store : Holder → Store
  | alone store => store
  | within s => s.store

namespace Store

variable {path : Path} {s s' : Store} {w w' w₁ w₂ w₃ : World}

/-! ## Operations on a store -/

/-- What can be asked of a store that is in no session. -/
inductive Operation where
  | add (p : Preset)
  | overwrite (p : Preset)
  | delete (p : Preset)
  | sort
  | save
  | reload
  deriving DecidableEq, Repr

/-- The store and the world after an operation that can fail. -/
def attempt (m : Store → Act Store) (s : Store) (w : World) : Store × World :=
  match Act.on (m s) w with
  | (.ok s', w') => (s', w')
  | (.error _, w') => (s, w')

/-- The store and the world after an operation, whatever its answer. -/
def Operation.perform : Operation → Store → World → Store × World
  | add p, s, w => (s.add p, w)
  | overwrite p, s, w => (s.overwrite p, w)
  | delete p, s, w => (s.delete p, (Deed.on (World.tell (s.deletionNote p)) w).2)
  | sort, s, w => (s.sort, w)
  | save, s, w => attempt Store.save s w
  | reload, s, w => attempt Store.reload s w

theorem attempt_of_ok {m : Store → Act Store} (h : Act.on (m s) w = (.ok s', w')) :
    attempt m s w = (s', w') := by
  rw [attempt, h]

theorem attempt_of_error {m : Store → Act Store} {e : Error} (h : (Act.on (m s) w).1 = .error e) :
    attempt m s w = (s, (Act.on (m s) w).2) := by
  unfold attempt
  split
  · next heq =>
    rw [heq] at h
    cases h
  · next heq => rw [heq]

theorem dealing_attempt {m : Store → Act Store}
    (hok : ∀ {s' w'}, Act.on (m s) w = (.ok s', w') → s.Dealing w w' s')
    (herror : ∀ {e w'}, Act.on (m s) w = (.error e, w') → s.Dealing w w' s) :
    s.Dealing w (attempt m s w).2 (attempt m s w).1 := by
  unfold attempt
  split
  · next h => exact hok h
  · next h => exact herror h

/-- A store that is edited has not been written. -/
theorem Reworks.dealing (h : s'.Reworks s) (hw : ¬ w.Wrote s.path w') : s.Dealing w w' s' := by
  obtain rfl | ⟨c, rfl⟩ := h
  · exact .kept hw
  · exact .edited c hw

theorem Operation.dealing (o : Operation) (s : Store) (w : World) :
    s.Dealing w (o.perform s w).2 (o.perform s w).1 := by
  cases o with
  | add p => exact .edited _ w.not_wrote_self
  | overwrite p => exact (Reworks.overwrite s p).dealing w.not_wrote_self
  | delete p => exact (Reworks.delete (.inl rfl) p).dealing w.not_wrote_self
  | sort => exact .edited _ w.not_wrote_self
  | save =>
    exact dealing_attempt (fun h => (turn_save s h rfl).dealing)
      fun h => (turn_save_error (.inl rfl) h).dealing
  | reload =>
    refine dealing_attempt (fun h => (turn_reload h).dealing) fun h => ?_
    have ht := talk_reload s w
    rw [h] at ht
    exact .kept ht.not_wrote

/-! ## Histories -/

/-- The file holds the same in both worlds. -/
def SameFile (path : Path) (w w' : World) : Prop :=
  readCatalogue w'.disk path = readCatalogue w.disk path

/-- The file cannot be read. -/
def OutOfReach (path : Path) (w : World) : Prop := ∃ e, readCatalogue w.disk path = .error e

/-- From `w` to `w₃` the file is changed by nobody but the operation that leads from `w₁` to `w₂`.
Meanwhile it may be out of reach. Where the operation has not written the file, it is left as it
was. -/
structure Undisturbed (path : Path) (w w₁ w₂ w₃ : World) : Prop where
  begins : SameFile path w w₁ ∨ OutOfReach path w₁
  written : w₁.Wrote path w₂ → SameFile path w₂ w₃
  unwritten : ¬ w₁.Wrote path w₂ → SameFile path w w₃

namespace Undisturbed

theorem of_wrote (h : w.Wrote path w') : Undisturbed path w w w' w' :=
  ⟨.inl rfl, fun _ => rfl, fun hn => absurd h hn⟩

theorem of_sameFile (h : SameFile path w w') : Undisturbed path w w w' w' :=
  ⟨.inl rfl, fun _ => rfl, fun _ => h⟩

/-- Nothing comes of an operation while the file is out of reach. -/
theorem of_outOfReach (hr : OutOfReach path w₁) (hc : w₂.changes = w₁.changes)
    (h : SameFile path w w₃) : Undisturbed path w w₁ w₂ w₃ :=
  ⟨.inr hr, fun hw => absurd ((World.wrote_congr rfl hc).mp hw) w₁.not_wrote_self, fun _ => h⟩

end Undisturbed

/-- A store is loaded from a file, and then one operation after the other is carried out on it, or
on a session that it has been given to. Nobody else changes the file. -/
inductive History [Find.Engine] (path : Path) : Holder → World → Prop
  | load {w w' : World} {s : Store} : Act.on (load path) w = (.ok s, w') →
    History path (.alone s) w'
  | alone {s s' : Store} {w w₁ w₂ w₃ : World} (o : Operation) : History path (.alone s) w →
    o.perform s w₁ = (s', w₂) → Undisturbed path w w₁ w₂ w₃ → History path (.alone s') w₃
  | begin {s : Store} {t : Session} {w w₁ w₂ w₃ : World} {selection : Selection}
    {setting : Setting} {lookup : Lookup} {mode : Find.Mode} : History path (.alone s) w →
    Act.on (Session.begin selection setting lookup s mode) w₁ = (.ok t, w₂) →
    Undisturbed path w w₁ w₂ w₃ → History path (.within t) w₃
  | within {t t' : Session} {w w₁ w₂ w₃ : World} (o : Session.Operation) :
    History path (.within t) w → o.perform t w₁ = (t', w₂) → Undisturbed path w w₁ w₂ w₃ →
    History path (.within t') w₃
  | leave {t : Session} {w : World} : History path (.within t) w → History path (.alone t.store) w

/-! ## The invariant -/

/-- The file can be read, and it holds what the store holds unless that has unsaved edits. -/
structure Agrees (path : Path) (s : Store) (w : World) : Prop where
  path_eq : s.path = path
  readable : ∃ c, readCatalogue w.disk path = .ok c
  clean : s.dirty = false → readCatalogue w.disk path = .ok s.catalogue

namespace Agrees

theorem load (h : Act.on (load path) w = (.ok s, w')) : Agrees path s w' := by
  rw [on_load] at h
  cases hc : readCatalogue w.disk path with
  | error e =>
    rw [hc] at h
    cases h
  | ok c =>
    rw [hc] at h
    cases h
    exact ⟨rfl, ⟨c, hc⟩, fun _ => hc⟩

theorem dealing (h : Agrees path s w) (u : Undisturbed path w w₁ w₂ w₃)
    (d : s.Dealing w₁ w₂ s') : Agrees path s' w₃ := by
  obtain rfl := h.path_eq
  obtain ⟨c₀, hc₀⟩ := h.readable
  cases d with
  | kept hn =>
    have hfile : readCatalogue w₃.disk s.path = readCatalogue w.disk s.path := u.unwritten hn
    exact ⟨rfl, hfile ▸ h.readable, hfile ▸ h.clean⟩
  | edited c hn => exact ⟨rfl, ⟨c₀, (u.unwritten hn).trans hc₀⟩, nofun⟩
  | read hn hr =>
    rcases u.begins with hsame | ⟨e, he⟩
    · have hc := (u.unwritten hn).trans (hsame.symm.trans hr)
      exact ⟨rfl, ⟨_, hc⟩, fun _ => hc⟩
    · rw [hr] at he
      cases he
  | written hw hr =>
    have hc := (u.written hw).trans hr
    exact ⟨rfl, ⟨_, hc⟩, fun _ => hc⟩

end Agrees

/-- A session starts with the store that it is given, and writes nothing. -/
theorem begin_ok [Find.Engine] {t : Session} {selection : Selection} {setting : Setting}
    {lookup : Lookup} {mode : Find.Mode}
    (h : Act.on (Session.begin selection setting lookup s mode) w = (.ok t, w')) :
    t.store = s ∧ w'.changes = w.changes := by
  rw [Session.on_begin] at h
  dsimp only at h
  split at h
  · cases h
    exact ⟨rfl, rfl⟩
  next first _ _ =>
  obtain ⟨hstore, htalk⟩ := Session.talk_loadPreset first
    (Session.blank selection setting lookup s mode)
    (Deed.on (World.tell (selection.members.flatMap lookup.complaints)) w).2
  split at h
  · next heq =>
    rw [heq] at hstore htalk
    cases h
    exact ⟨hstore, htalk.changes⟩
  · cases h

/-- The flag of a store is right at every point of its history. -/
theorem History.agrees [Find.Engine] {h : Holder} (hist : History path h w) :
    Agrees path h.store w := by
  induction hist with
  | load hl => exact .load hl
  | @alone s _ _ w₁ _ _ o _ ho u ih =>
    have hd := o.dealing s w₁
    rw [ho] at hd
    exact ih.dealing u hd
  | @begin _ _ _ w₁ _ _ _ _ _ _ _ hb u ih =>
    obtain ⟨hstore, hc⟩ := begin_ok hb
    refine ih.dealing u (hstore ▸ .kept fun hw => ?_)
    exact w₁.not_wrote_self ((World.wrote_congr rfl hc).mp hw)
  | @within t _ _ w₁ _ _ o _ ho u ih =>
    have hd := o.dealing t w₁
    rw [ho] at hd
    exact ih.dealing u hd
  | leave _ ih => exact ih

/-! ## Failures -/

theorem reloadPresets_error {t : Session} {e : Error}
    (h : (Session.reloadPresets.on t w).1 = .error e) : (Session.reloadPresets.on t w).2.1 = t := by
  cases hf : t.state.isFinal with
  | true =>
    rw [Session.reloadPresets, Session.on_guarded_of_final _ w hf]
  | false =>
    rw [Session.on_reloadPresets w hf] at h ⊢
    cases hr : Act.on t.store.reload w with
    | mk r w' =>
    rw [hr] at h
    cases r with
    | error e => rfl
    | ok store => cases h

theorem persist_false {t : Session} (h : (Session.persist.on t w).1 = .ok false) :
    (Session.persist.on t w).2.1 = t := by
  rw [Session.on_persist] at h ⊢
  cases hs : Act.on t.store.save w with
  | mk r w' =>
  rw [hs] at h
  cases r with
  | error e => rfl
  | ok store => cases h

/-- A preset that could not be deleted is put back, with the edits that were there. -/
theorem deleted_false [Find.Engine] {t : Session} {name : String}
    (h : (Session.deletePreset.on t w).1 = .ok (.deleted name false)) :
    (Session.deletePreset.on t w).2.1 = t := by
  cases hf : t.state.isFinal with
  | true =>
    rw [Session.deletePreset, Session.on_guarded_of_final _ w hf] at h
    cases h
  | false =>
    have hd := Session.deletion_deletePreset w hf
    generalize Session.deletePreset.on t w = r at h hd ⊢
    cases hd with
    | nothing | declined | unwritten => rfl
    | written =>
      rw [SessionAct.on_bind] at h
      split at h <;> cases h

/-! ## The theorem -/

/-- As long as nobody else changes the file, a store without unsaved edits is what is loaded from
the file. A save or a reload that fails leaves the store as it was. -/
theorem clean_agrees_with_file [Find.Engine] (path : Path) :
    (∀ h w, History path h w → h.store.dirty = false →
      (∃ w', Act.on (load path) w = (.ok h.store, w')) ∧
        (w.disk.pathExists path = false → h.store.catalogue = .blank)) ∧
    (∀ s w e, (Act.on (save s) w).1 = .error e → (Operation.save.perform s w).1 = s) ∧
    (∀ s w e, (Act.on (reload s) w).1 = .error e → (Operation.reload.perform s w).1 = s) ∧
    (∀ t w, (Session.persist.on t w).1 = .ok false → (Session.persist.on t w).2.1 = t) ∧
    (∀ t w e, (Session.reloadPresets.on t w).1 = .error e →
      (Session.reloadPresets.on t w).2.1 = t) ∧
    ∀ t w name, (Session.deletePreset.on t w).1 = .ok (.deleted name false) →
      (Session.deletePreset.on t w).2.1 = t := by
  refine ⟨fun h w hist hclean => ?_, fun s w e h => congrArg Prod.fst (attempt_of_error h),
    fun s w e h => congrArg Prod.fst (attempt_of_error h), fun t w => persist_false,
    fun t w e => reloadPresets_error, fun t w name => deleted_false⟩
  obtain ⟨hp, -, hc⟩ := hist.agrees
  have hc := hc hclean
  refine ⟨⟨(Act.on (load path) w).2, Prod.ext ?_ rfl⟩, fun hmissing => ?_⟩
  · rw [on_load, hc, ← hclean, ← hp]
    rfl
  · rw [readCatalogue, hmissing] at hc
    exact (Except.ok.inj hc).symm

attribute [local instance] Find.Engine.boundless in
/-- While its file is out of reach a session fails to delete a preset that has not been saved; the
store is saved once it has been given back, and cannot be read again. -/
theorem clean_agrees_after_failures :
    let path : Path := .ofString "p"
    let s : Store := ⟨path, Catalogue.blank.add ⟨"a", "x", "y"⟩, true⟩
    let w : World := ⟨⟨[.folder 0 []], 0⟩, [], [], ⟨2024, 2, 21, 15, 7, 0⟩,
      .scripted [] [true] [], [], 0⟩
    let t : Session := { Session.blank ⟨[], []⟩ ⟨w.now, "", ""⟩ .none s .legacy with
      selected := some "a" }
    let blocked : Disk := ⟨[.folder 0 [(Utf8.encode "p", 1)], .folder 0 []], 0⟩
    (∃ h w', History path h w' ∧ h.store.dirty = false ∧ h.store.catalogue.names = ["a"] ∧
      ∃ w'', Act.on (load path) w' = (.ok h.store, w'')) ∧
    (∃ h w', History path h w' ∧ h.store.dirty = false ∧ w'.disk.pathExists path = false ∧
      h.store.catalogue = .blank) ∧
    (Operation.save.perform s { w with disk := blocked }).1 = s ∧
    (Operation.reload.perform s { w with disk := blocked }).1 = s ∧
    (Session.persist.on t { w with disk := blocked }).2.1 = t ∧
    (Session.reloadPresets.on t { w with disk := blocked }).2.1 = t ∧
    (Session.deletePreset.on t { w with disk := blocked }).2.1 = t := by
  intro path s w t blocked
  obtain ⟨hclean, hsave, hreload, hpersist, hreloadPresets, hdelete⟩ := clean_agrees_with_file path
  let out (w : World) : World := { w with disk := blocked }
  let w₁ := (Act.on (load path) w).2
  let begun := Act.on (Session.begin ⟨[], []⟩ ⟨w.now, "", ""⟩ .none s .legacy) w₁
  let t₂ := ((Session.loadPreset ⟨"a", "x", "y"⟩).on
    (Session.blank ⟨[], []⟩ ⟨w.now, "", ""⟩ .none s .legacy) w₁).2.1
  let r₃ := Session.Operation.deletePreset.perform t₂ (out begun.2)
  let w₃ := { r₃.2 with disk := begun.2.disk }
  let w₄ := (Act.on (save s) w₃).2
  let w₅ := (Act.on (reload { s with dirty := false }) (out w₄)).2
  let e : Error := .persistence "read" path "Is a directory (os error 21)"
  have hread : readCatalogue blocked path = .error e := by decide +kernel
  have hl : Act.on (load path) w = (.ok ⟨path, .blank, false⟩, w₁) :=
    Prod.ext (by decide +kernel : (Act.on (load path) w).1 = .ok ⟨path, .blank, false⟩) rfl
  have hs : Act.on (save s) w₃ = (.ok { s with dirty := false }, w₄) := Prod.ext
    (by decide +kernel : (Act.on (save s) w₃).1 = .ok { s with dirty := false }) rfl
  have hr : (Act.on (reload { s with dirty := false }) (out w₄)).1 = .error e := by
    rw [on_reload]
    exact congrArg (Except.map _) hread
  have h₁ : History path (.alone s) w₁ :=
    (History.load hl).alone (.add ⟨"a", "x", "y"⟩) rfl (.of_sameFile rfl)
  have h₂ : History path (.within t₂) begun.2 :=
    h₁.begin (rfl : begun = (.ok t₂, begun.2)) (.of_sameFile rfl)
  have h₃ : History path (.alone r₃.1.store) w₃ := .leave <| h₂.within .deletePreset rfl
    (.of_outOfReach ⟨_, hread⟩ (by decide +kernel : r₃.2.changes = (out begun.2).changes) rfl)
  have hback : r₃.1.store = s := by decide +kernel
  have h₄ : History path (.alone { s with dirty := false }) w₄ :=
    (hback ▸ h₃).alone .save (attempt_of_ok hs) (.of_wrote (save_ok hs).2.2.2)
  have h₅ : History path (.alone { s with dirty := false }) { w₅ with disk := w₄.disk } :=
    h₄.alone .reload (attempt_of_error hr)
      (.of_outOfReach ⟨_, hread⟩ (talk_reload ..).changes rfl)
  refine ⟨⟨_, _, h₅, rfl, by decide +kernel, (hclean _ _ h₅ rfl).1⟩,
    ⟨_, _, .load hl, rfl, ?missing, (hclean _ _ (.load hl) rfl).2 ?missing⟩,
    hsave _ _ (.persistence "write" path "Is a directory (os error 21)") ?_,
    hreload _ _ e ?_, hpersist _ _ ?_, hreloadPresets _ _ e ?_, hdelete _ _ "a" ?_⟩ <;> decide +kernel

end Store
end Relabel
