import Relabel.Find.Wildcard

/-!
# Engines

What carries out regular expressions. An engine may refuse an expression for the room that it would
take up, and where it draws the line is its own affair: what is said of patterns, sessions and runs
is said for every engine.

* `Engine`: which expressions are refused.
* `Engine.boundless`: the engine that has room for everything.
* `Engine.sized`: an engine that goes by an estimate of the room.
-/

namespace Relabel.Find

/-- An engine for regular expressions. -/
class Engine where
  /-- What is said about an expression that is refused. -/
  refusal? (source : String) : Option String
  /-- There is room for the expressions of short find texts. -/
  takes_short (mode : Mode) (find : String) (h : find.toList.length ≤ 1000) :
    refusal? (source mode find) = none

namespace Engine

/-- The engine that has room for everything. -/
@[reducible]
def boundless : Engine where
  refusal? _ := none
  takes_short _ _ _ := rfl

/-! ## An estimate -/

/-- An estimate of the bytes that an expression takes up. A character that stands for itself takes
up little; a dot stands for every sequence of bytes that is a character. -/
def weight : List Char → Nat
  | [] => 0
  | '\\' :: c :: s => 32 * c.utf8Size + weight s
  | '.' :: s => 1100 + weight s
  | c :: s => 32 * c.utf8Size + weight s

/-- The bytes that an expression may take up. -/
def room : Nat := 10485760

theorem weight_le (s : List Char) : weight s ≤ 1100 * s.length := by
  fun_induction weight s with
  | case1 => exact Nat.le_refl 0
  | case2 c s ih =>
    have hc := c.utf8Size_le_four
    simp only [List.length_cons]
    omega
  | case3 s ih =>
    rw [List.length_cons]
    omega
  | case4 c s _ _ ih =>
    have hc := c.utf8Size_le_four
    rw [List.length_cons]
    omega

theorem length_sourceOf_le (mode : Mode) (c : Char) : (sourceOf mode c).length ≤ 5 := by
  have hsource (p : Piece) : p.source.length ≤ 2 := by
    cases p with
    | char c =>
      rw [Piece.source, escape]
      split <;> simp
    | one | run | many | atStart | atEnd => decide
  unfold sourceOf
  split
  · decide
  · exact Nat.le_trans (hsource _) (by decide)

theorem length_source_le (mode : Mode) (find : String) :
    (source mode find).toList.length ≤ 5 * find.toList.length := by
  rw [source, String.toList_ofList]
  induction find.toList with
  | nil => exact Nat.le_refl 0
  | cons c s ih =>
    have hc := length_sourceOf_le mode c
    rw [List.flatMap_cons, List.length_append, List.length_cons]
    omega

/-- The engine that refuses what does not fit by the estimate. -/
@[reducible]
def sized : Engine where
  refusal? source :=
    if room < weight source.toList then
      some s!"Compiled regex exceeds size limit of {room} bytes."
    else none
  takes_short mode find h := by
    have hweight := weight_le (source mode find).toList
    have hlength := length_source_le mode find
    rw [if_neg]
    unfold room
    omega

end Engine
end Relabel.Find
