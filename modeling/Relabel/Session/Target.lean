import Relabel.Token.Resolver

/-!
# Targets

The two places from which items can be renamed. A target says which kinds of items may be renamed
from it, which are left out without a word, and what the items' own texts are called there.
-/

namespace Relabel

/-- Where items are renamed from. -/
inductive Target where
  /-- The desktop and the media panel. -/
  | mediaPanel
  /-- The segments of a timeline. -/
  | timeline
  deriving DecidableEq, Repr

namespace Target

/-- The target in words. -/
def label : Target → String
  | mediaPanel => "media panel"
  | timeline => "timeline"

/-- What an item's own text is called. -/
def lookup : Target → Lookup
  | mediaPanel => .colourSpace
  | timeline => .shotName

/-- The kinds that a selection may hold. Transitions lie between segments, so that a range of a
timeline holds them too. -/
def allowed : Target → List Kind
  | mediaPanel =>
    [.clip, .sequence, .desktop, .folder, .library, .reel, .reelGroup, .workspace]
  | timeline => [.clip, .segment, .transition]

/-- The kinds that a selection may hold but whose items keep their names. -/
def leftOut : Target → List Kind
  | mediaPanel => []
  | timeline => [.transition]

/-- Items of these kinds may be renamed together. -/
def admits (t : Target) (kinds : List Kind) : Bool := kinds.all t.allowed.contains

end Target
end Relabel
