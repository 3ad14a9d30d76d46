/-!
# Illegal characters

Characters that a name must not hold. A replace template gives each of them up for an underscore.
-/

namespace Relabel

/-- The character must not be in a name. -/
def isIllegal (c : Char) : Bool := "`|/\\+*';".toList.contains c

/-- The text with an underscore for each illegal character. -/
def sanitize (s : String) : String :=
  String.ofList (s.toList.map fun c => if isIllegal c then '_' else c)

end Relabel
