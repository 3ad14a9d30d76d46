import Relabel.Proofs.Session.Refusal
import Relabel.Run.Basic

/-!
# The opening of a run

Up to the point where it shows the proposed names a run reads files, gathers items and sets the
fields of a session. All of that only says something.

* `Run.quiet_load`, `Run.quiet_gather`, `Session.quiet_start`, `Run.quiet_setFields`: the parts of
  the opening are quiet.
-/

namespace Relabel

/-! ## Settings and presets -/

theorem Settings.quiet_load (path : Path) : (Settings.load path).Quiet := by
  unfold load
  refine .bind (.lift .getDisk) fun d => ?_
  split
  · exact .throw _
  · split
    · exact .ite (.bind (.lift (.tell _)) fun _ => .throw _) (.throw _)
    · exact .ite (.bind (.lift (.tell _)) fun _ => .pure _) (.pure _)

/-- Settings that are read change nothing, and neither do settings that are missing. -/
theorem Settings.quiet_readOrDefault (path? : Option Path) : (readOrDefault path?).Quiet := by
  unfold readOrDefault
  cases path? with
  | some path =>
    refine .bind (.lift .getDisk) fun d => ?_
    exact .ite (quiet_load path) (.throw _)
  | none =>
    refine .bind .get fun w => ?_
    split
    · exact .throw _
    · refine .bind (.lift .getDisk) fun d => ?_
      exact .ite (.bind (.lift (.tell _)) fun _ => quiet_load _)
        (.bind (.lift (.tell _)) fun _ => .pure _)

theorem Store.quiet_load (path : Path) : (Store.load path).Quiet := by
  intro w
  rw [Store.on_load]
  exact .tell ..

/-- What a run needs is read, and nothing is made on the disk for it. -/
theorem Run.quiet_load (o : Run.Options) : (Run.Setup.load o).Quiet := by
  unfold Run.Setup.load
  refine .bind (Settings.quiet_readOrDefault _) fun settings => ?_
  refine .bind .get fun w => ?_
  split
  · exact .throw _
  · refine .bind (Store.quiet_load _) fun store => ?_
    exact .bind (.lift (.tell _)) fun _ => .bind .get fun _ => .pure _

/-! ## Items -/

theorem Item.quiet_ofPath (path : Path) : (ofPath path).Quiet := by
  unfold ofPath
  split
  · exact .throw _
  split
  · exact .throw _
  · exact .bind (.lift (.tell _)) fun _ => .bind (.lift .getDisk) fun _ => .pure _

theorem Item.quiet_ofPaths (paths : List Path) : (ofPaths paths).Quiet := by
  induction paths with
  | nil => exact .pure _
  | cons path paths ih =>
    unfold ofPaths
    refine .bind (quiet_ofPath path).run fun r => ?_
    cases r with
    | error e => exact ih
    | ok item => exact .bind ih fun _ => .pure _

/-- A directory that is scanned is as it was. -/
theorem Item.quiet_scan (folder : Path) : (scan folder).Quiet := by
  unfold scan
  refine .bind (.lift (.tell _)) fun _ => .bind (.lift .getDisk) fun d => ?_
  split
  · exact .throw _
  · exact .bind (.lift (quiet_ofPaths _)) fun _ => .bind (.lift (.tell _)) fun _ => .pure _

theorem Manifest.quiet_load (path : Path) : (Manifest.load path).Quiet := by
  unfold load
  refine .bind (.lift .getDisk) fun d => ?_
  split
  · exact .pure _
  · exact .throw _

namespace Run

theorem quiet_entriesAt (paths : List Path) : (entriesAt paths).Quiet := by
  induction paths with
  | nil => exact .pure _
  | cons path paths ih =>
    unfold entriesAt
    refine .bind (.lift .getDisk) fun d => ?_
    have rest : Act.Quiet (do
        let item ← Item.ofPath path
        pure (item :: (← entriesAt paths))) :=
      .bind (Item.quiet_ofPath path) fun _ => .bind ih fun _ => .pure _
    exact .ite (.bind (.throw _) fun _ => rest) rest

theorem quiet_entriesHere : entriesHere.Quiet := by
  unfold entriesHere
  refine .bind (.lift .getDisk) fun d => ?_
  split
  · exact .throw _
  · exact Item.quiet_scan _

/-- A run looks at its items before it plans, wherever they come from. -/
theorem quiet_gather (o : Options) : (gather o).Quiet := by
  unfold gather
  split
  · exact .bind (Manifest.quiet_load _) fun _ => .pure _
  · exact .ite (.bind quiet_entriesHere fun _ => .pure _)
      (.bind (quiet_entriesAt _) fun _ => .pure _)

end Run

/-! ## Sessions -/

namespace Session

/-- A session that starts only says so. -/
theorem quiet_begin [Find.Engine] (selection : Selection) (setting : Setting) (lookup : Lookup)
    (store : Store) (mode : Find.Mode) : (begin selection setting lookup store mode).Quiet := by
  unfold begin
  refine .bind (.lift (.tell _)) fun _ => ?_
  split
  · exact .bind (.pure _) fun _ => .bind (.lift (.tell _)) fun _ => .pure _
  · next first _ _ =>
    refine .bind (.lift ((quiet_adopt _).runOn _)) fun r => ?_
    split
    · exact .bind (.pure _) fun _ => .bind (.lift (.tell _)) fun _ => .pure _
    · exact .bind (.throw _) fun _ => .bind (.lift (.tell _)) fun _ => .pure _

theorem quiet_leaveOut (selection : Selection) (kinds : List Kind) :
    (leaveOut selection kinds).Quiet := by
  induction kinds generalizing selection with
  | nil => exact .pure _
  | cons k ks ih => exact .bind (.bind (.tell _) fun _ => .pure _) ih

theorem quiet_start [Find.Engine] (target : Target) (selection : Selection) (setting : Setting)
    (store : Store) (mode : Find.Mode) : (start target selection setting store mode).Quiet :=
  .bind (.lift (quiet_leaveOut _ _)) fun _ =>
    .bind (.lift (.tell _)) fun _ => quiet_begin _ _ _ _ _

end Session

namespace Run

theorem quiet_usePreset [Find.Engine] (name : String) : (usePreset name).Quiet := by
  unfold usePreset
  refine .bind (Session.quiet_selectPreset name) fun found => ?_
  cases found with
  | true => exact .pure _
  | false => exact .throw _

theorem quiet_forM {m : String → SessionAct Unit} (h : ∀ text, (m text).Quiet)
    (text? : Option String) : (text?.forM m).Quiet := by
  cases text? with
  | none => exact .pure _
  | some text => exact h text

/-- What is asked for on the command line goes into the session and nowhere else. -/
theorem quiet_setFields [Find.Engine] (o : Options) : (setFields o).Quiet :=
  .bind (quiet_forM quiet_usePreset _) fun _ =>
    .bind (quiet_forM Session.quiet_setFind _) fun _ => quiet_forM Session.quiet_setReplace _

/-- A quiet operation stays quiet in a session that is started for it. -/
theorem quiet_inSession [Find.Engine] {α : Type} (setup : Setup) (items : List Item)
    {m : SessionAct α} (h : m.Quiet) : (inSession setup items m).Quiet := by
  unfold inSession
  refine .bind (Session.quiet_start _ _ _ _ _) fun s => .bind (.lift (h.runOn s)) fun r => ?_
  split
  · exact .pure _
  · exact .throw _

end Run
end Relabel
