import Relabel.Find.Engine
import Relabel.Find.Match
import Relabel.Error

/-!
# Patterns

A find text made ready for replacing. The empty find text finds nothing, not even empty matches.
-/

namespace Relabel.Find

/-- A find text with its alternatives. -/
structure Pattern where
  find : String
  mode : Mode
  deriving DecidableEq, Repr

namespace Pattern

/-- The pattern that finds nothing. -/
def empty (mode : Mode) : Pattern := ⟨"", mode⟩

def isEmpty (p : Pattern) : Bool := p.find.isEmpty

/-- The regular expression, empty if nothing is searched for. -/
def source (p : Pattern) : String := Find.source p.mode p.find

/-- Refuses a find text whose expression the engine refuses. The empty one has no expression. -/
def compile [Engine] (find : String) (mode : Mode) : Except Error Pattern :=
  if find.isEmpty then .ok (empty mode)
  else
    match Engine.refusal? (Find.source mode find) with
    | some cause => .error (.patternCompile find cause)
    | none => .ok ⟨find, mode⟩

/-- The parts of a name. -/
def parts (p : Pattern) (name : List Char) : List Part :=
  if p.isEmpty then name.map .kept else Find.parts (branches p.mode p.find.toList) name

/-- The name with every match replaced. -/
def apply (p : Pattern) (name replacement : String) : String :=
  String.ofList ((p.parts name.toList).flatMap (Part.replaced replacement.toList))

end Pattern
end Relabel.Find
