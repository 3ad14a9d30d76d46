import Relabel.Find.Wildcard

/-!
# Matches

Where a list of pieces matches in a name. The search takes the leftmost start; from there each run
takes as many characters as the pieces after it allow, and the first alternative that matches wins.

The lengths of the matches from every start are computed from the last piece to the first, so that
the work grows with the length of the pattern times the length of the name.

* `Lengths`: for each start, the length of the match there, if there is one.
* `Part`: what a name is cut into, text outside all matches and matches.
-/

namespace Relabel.Find

/-- Entry `i` is the length of the match that starts at place `i`; a text of `n` characters has
`n + 1` places. -/
abbrev Lengths := List (Option Nat)

/-- The empty match at every place. -/
def emptyMatches (s : List Char) : Lengths := some 0 :: s.map fun _ => some 0

namespace Piece

/-- The length of a match that begins with `p`, at a place with the character `c`. For the pieces
after `p` it is `here` at this place and `next` at the place behind; a match that begins with `p`
at the place behind has the length `after`. `front` says that the place opens the name. -/
def entry (p : Piece) (front : Bool) (c : Char) (here next after : Option Nat) : Option Nat :=
  match p with
  | char d => if c = d then next.map (· + 1) else none
  | one => if c = '\n' then none else next.map (· + 1)
  | run =>
    if c = '\n' then here else
      match after with
      | some k => some (k + 1)
      | none => here
  | many =>
    if c = '\n' then none else
      match after with
      | some k => some (k + 1)
      | none => next.map (· + 1)
  | atStart => if front then here else none
  | atEnd => none

/-- The length of a match that begins with `p`, at the end of the name. -/
def lastEntry (p : Piece) (front : Bool) (here : Option Nat) : Option Nat :=
  match p with
  | char _ | one | many => none
  | run | atEnd => here
  | atStart => if front then here else none

/-- Puts `p` before the pieces that `rest` is for; `front` says that the text opens the name. -/
def extend (p : Piece) (front : Bool) : List Char → Lengths → Lengths
  | [], rest => [p.lastEntry front rest.head?.join]
  | c :: s, rest =>
    let after := p.extend false s rest.tail
    p.entry front c rest.head?.join rest.tail.head?.join after.head?.join :: after

end Piece

/-- The lengths of the matches of one alternative. -/
def lengths (ps : List Piece) (name : List Char) : Lengths :=
  ps.foldr (fun p rest => p.extend true name rest) (emptyMatches name)

/-- The lengths of the matches of several alternatives, the first that matches taken. -/
def firstLengths (branches : List (List Piece)) (name : List Char) : Lengths :=
  branches.foldr (fun ps rest => List.zipWith Option.or (lengths ps name) rest)
    ((emptyMatches name).map fun _ => none)

/-! ## Cutting a name -/

/-- A piece of a name. -/
inductive Part where
  /-- A character outside all matches. -/
  | kept (c : Char)
  /-- A match. -/
  | found (text : List Char)
  deriving DecidableEq, Repr

namespace Part

/-- What the part holds of the name. -/
def text : Part → List Char
  | kept c => [c]
  | found t => t

/-- What stands for the part when matches give way to `r`. -/
def replaced (r : List Char) : Part → List Char
  | kept c => [c]
  | found _ => r

end Part

/-- Cuts a text at its matches, from the left. The first `skip` characters belong to a match
already taken; `closed` says that a match ends here, so that an empty one does not count. -/
def cut : (skip : Nat) → (closed : Bool) → List Char → Lengths → List Part
  | k + 1, _, _ :: s, _ :: m => cut k true s m
  | 0, _, c :: s, some (k + 1) :: m => .found ((c :: s).take (k + 1)) :: cut k true s m
  | 0, false, c :: s, some 0 :: m => .found [] :: .kept c :: cut 0 false s m
  | 0, _, c :: s, _ :: m => .kept c :: cut 0 false s m
  | 0, false, [], some 0 :: _ => [.found []]
  | _, _, _, _ => []

/-- Cuts a name at the matches of some alternatives. -/
def parts (branches : List (List Piece)) (name : List Char) : List Part :=
  cut 0 false name (firstLengths branches name)

end Relabel.Find
