import Relabel.Text.Alphanumeric

/-!
# Variables in texts

A text may mention variables of the environment, as `$NAME`, `${NAME}` or `${NAME:-default}`, and
may begin with a tilde for the user's home.

* `Piece`: what a text is cut into.
* `expandVariables`: the text with the values of its variables.
* `expandTilde`: the text with the home in the place of a tilde.
-/

namespace Relabel.Expansion

/-- A piece of a text that may mention variables. -/
inductive Piece where
  /-- A character that stands for itself. -/
  | plain (c : Char)
  /-- A variable, and what takes its place if it is not set. -/
  | variable (name : List Char) (default : Option (List Char))
  deriving DecidableEq, Repr

/-! ## Cutting -/

/-- A character of a variable's name outside braces. -/
def isNameChar (c : Char) : Bool := Text.isAlphanumeric c || c == '_'

/-- What stands before and behind the first brace that closes. -/
def cutBrace : List Char → Option (List Char × List Char)
  | [] => none
  | c :: s => if c = '\x7d' then some ([], s) else (cutBrace s).map fun (a, b) => (c :: a, b)

theorem cutBrace_length {s a b : List Char} (h : cutBrace s = some (a, b)) :
    b.length < s.length := by
  induction s generalizing a with
  | nil => simp [cutBrace] at h
  | cons c s ih =>
    simp only [cutBrace] at h
    split at h
    · obtain ⟨rfl, rfl⟩ : [] = a ∧ s = b := by simpa using h
      simp
    · obtain ⟨p, hp, he⟩ := Option.map_eq_some_iff.1 h
      obtain ⟨rfl, rfl⟩ : c :: p.1 = a ∧ p.2 = b := by simpa using he
      have := ih hp
      simp only [List.length_cons]
      omega

/-- What stands before and behind the first colon that a hyphen follows. -/
def cutDefault : List Char → Option (List Char × List Char)
  | [] => none
  | c :: s =>
    if c = ':' ∧ s.head? = some '-' then some ([], s.tail)
    else (cutDefault s).map fun (a, b) => (c :: a, b)

/-- The variable that stands between braces. Nothing in front of a colon is no name, so that the
colon belongs to one. -/
def braced (s : List Char) : Piece :=
  match cutDefault s with
  | some (c :: name, default) => .variable (c :: name) (some default)
  | _ => .variable s none

/-- The pieces of a text. Two dollar signs are one that stands for itself, and so is one that
neither a name nor a pair of braces follows. -/
def pieces : List Char → List Piece
  | [] => []
  | '$' :: '$' :: s => .plain '$' :: pieces s
  | '$' :: '\x7b' :: s =>
    match h : cutBrace s with
    | some (inside, rest) =>
      have := cutBrace_length h
      braced inside :: pieces rest
    | none => .plain '$' :: .plain '\x7b' :: pieces s
  | '$' :: s =>
    match s.takeWhile isNameChar with
    | [] => .plain '$' :: pieces s
    | name =>
      have := (List.dropWhile_sublist (l := s) isNameChar).length_le
      .variable name none :: pieces (s.dropWhile isNameChar)
  | c :: s => .plain c :: pieces s
termination_by s => s.length
decreasing_by all_goals (simp only [List.length_cons]; omega)

/-- The names of the variables that a text mentions. -/
def names (s : String) : List String :=
  (pieces s.toList).filterMap fun
    | .plain _ => none
    | .variable name _ => some (String.ofList name)

/-! ## Putting values in -/

/-- The text of a piece; the error is the name of a variable that is not set. -/
def Piece.text (lookup : String → Option String) : Piece → Except String (List Char)
  | plain c => .ok [c]
  | «variable» name default =>
    match lookup (String.ofList name), default with
    | some value, _ => .ok value.toList
    | none, some default => .ok default
    | none, none => .error (String.ofList name)

/-- The text of pieces. -/
def join (lookup : String → Option String) : List Piece → Except String (List Char)
  | [] => .ok []
  | p :: ps => do .ok ((← p.text lookup) ++ (← join lookup ps))

/-- The text with the values of its variables. -/
def expandVariables (lookup : String → Option String) (s : List Char) : Except String (List Char) :=
  join lookup (pieces s)

/-- The text with the home in the place of a tilde that stands alone or before a slash. -/
def expandTilde (home? : Option String) (s : List Char) : List Char :=
  match s, home? with
  | '~' :: rest, some home =>
    if rest.isEmpty || rest.head? == some '/' then home.toList ++ rest else s
  | _, _ => s

/-- The text with variables and tilde expanded; a tilde that comes out of a variable stays. -/
def expand (lookup : String → Option String) (home? : Option String) (s : String) :
    Except String String := do
  let t ← expandVariables lookup s.toList
  .ok (String.ofList (if s.toList.head? = some '~' then expandTilde home? t else t))

end Relabel.Expansion
