/-!
# Wildcards

The language of find texts. Four characters are wildcards: `^` and `$` hold at the start and at the
end of a name, `?` is one character, and what `*` is depends on the mode. Every other character
stands for itself.

* `Piece`: what one step of a pattern asks for.
* `branches`: the alternatives of a find text, first choice first.
* `source`: the find text as a regular expression.
-/

namespace Relabel.Find

/-- What `*` stands for. -/
inductive Mode where
  /-- The choice "an empty name, or at least one character", which is not kept together: what
  stands before it goes with the first alternative and what stands after it with the second. -/
  | legacy
  /-- Any run of characters. -/
  | anySequence
  deriving DecidableEq, Repr

/-- One step of a pattern. -/
inductive Piece where
  /-- The character itself. -/
  | char (c : Char)
  /-- One character that does not end a line. -/
  | one
  /-- As many characters as possible that do not end a line, possibly none. -/
  | run
  /-- As many characters as possible that do not end a line, at least one. -/
  | many
  /-- The start of the name. -/
  | atStart
  /-- The end of the name. -/
  | atEnd
  deriving DecidableEq, Repr

/-- The piece that a character of a find text asks for. -/
def Piece.ofChar : Char → Piece
  | '^' => .atStart
  | '$' => .atEnd
  | '?' => .one
  | '*' => .run
  | c => .char c

/-- One of the four wildcards. -/
def isWildcard (c : Char) : Bool := c == '^' || c == '$' || c == '?' || c == '*'

/-- What the wildcards are called, for the user. -/
def legend : List (String × String) :=
  [("Match All", "*"), ("Match Any", "?"), ("Match Start", "^"), ("Match End", "$")]

theorem Piece.ofChar_of_not_isWildcard {c : Char} (h : isWildcard c = false) :
    Piece.ofChar c = .char c := by
  simp only [isWildcard, Bool.or_eq_false_iff, beq_eq_false_iff_ne] at h
  unfold ofChar
  split <;> simp_all

/-! ## Alternatives -/

/-- The alternatives of a find text in legacy mode; `opening` are the pieces that stand before it
in its first alternative. Each star ends an alternative, which then holds on an empty name only,
and the next one begins with at least one character. -/
def legacyBranches (opening : List Piece) : List Char → List (List Piece)
  | [] => [opening]
  | '*' :: s => (opening ++ [.atStart, .atEnd]) :: legacyBranches [.many] s
  | c :: s => legacyBranches (opening ++ [Piece.ofChar c]) s

/-- The alternatives of a find text. -/
def branches (mode : Mode) (find : List Char) : List (List Piece) :=
  match mode with
  | .legacy => legacyBranches [] find
  | .anySequence => [find.map Piece.ofChar]

/-! ## Expression source -/

/-- The characters that mean something in a regular expression. -/
def isMeta (c : Char) : Bool :=
  "\\.+*?()|[]\x7b\x7d^$#&-~".toList.contains c

/-- A character as a regular expression. -/
def escape (c : Char) : List Char := if isMeta c then ['\\', c] else [c]

/-- A piece as a regular expression. -/
def Piece.source : Piece → List Char
  | .char c => escape c
  | .one => ['.']
  | .run => ['.', '*']
  | .many => ['.', '+']
  | .atStart => ['^']
  | .atEnd => ['$']

/-- A character of a find text as a regular expression. -/
def sourceOf (mode : Mode) (c : Char) : List Char :=
  match mode, Piece.ofChar c with
  | .legacy, .run => "^$|.+".toList
  | _, p => p.source

/-- A find text as a regular expression. -/
def source (mode : Mode) (find : String) : String :=
  String.ofList (find.toList.flatMap (sourceOf mode))

end Relabel.Find
