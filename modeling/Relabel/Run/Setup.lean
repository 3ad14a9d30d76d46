import Relabel.Run.Request
import Relabel.Session.Target
import Relabel.Preset.Store
import Relabel.Settings.Basic

/-!
# Setting up a run

What a run takes from the settings, the options, the environment and the clock.
-/

namespace Relabel.Run

/-- What a run starts with. -/
structure Setup where
  mode : Find.Mode
  setting : Setting
  store : Store
  target : Target
  deriving DecidableEq, Repr

namespace Setup

/-- The project if the settings name none: that of the current directory. -/
def defaultProject (w : World) : String :=
  match w.disk.currentPath with
  | .ok path => (path.fileName?.map FileName.display).getD ""
  | .error _ => ""

/-- The user if the settings name none. -/
def defaultUser (w : World) : String :=
  ((w.lookupVariable "USER").or (w.lookupVariable "USERNAME")).getD ""

/-- What tokens are taken from. -/
def settingOf (s : Settings) (w : World) : Setting :=
  ⟨w.now, s.project?.getD (defaultProject w), s.user?.getD (defaultUser w)⟩

/-- Reads the settings and the presets. -/
def load (o : Options) : Act Setup := do
  let settings ← Settings.readOrDefault o.settings?
  match settings.presetsPath (← get) with
  | .error e => throw e
  | .ok path =>
    let store ← Store.load path
    World.debug s!"Using presets from {store.path}"
    pure {
      mode := if o.anySequence then .anySequence else settings.mode
      setting := settingOf settings (← get)
      store
      target := if o.timeline then .timeline else .mediaPanel }

end Setup
end Relabel.Run
