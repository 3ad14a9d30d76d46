import Relabel.Text

/-!
# Tokens

A token is a placeholder that a replace template may hold, with the text that takes its place.

* `Token.apply`: puts the token's text for its placeholder.
* `Token.merge`: a pool of tokens with some of them exchanged.
-/

namespace Relabel

/-- A placeholder and what it stands for. -/
structure Token where
  /-- What the user sees; tokens of one label exclude each other. -/
  label : String
  /-- What stands in a template. -/
  placeholder : String
  /-- What takes its place; nothing counts as the empty text. -/
  value : Option String
  deriving DecidableEq, Repr

namespace Token

/-- The text that takes the placeholder's place. -/
def text (t : Token) : String := t.value.getD ""

/-- Replaces every occurrence of the placeholder. -/
def apply (t : Token) (template : String) : String :=
  Text.replace t.placeholder t.text template

/-- Exchanges the first token of the same label, or adds `t` at the end. -/
def put (t : Token) : List Token → List Token
  | [] => [t]
  | u :: pool => if u.label = t.label then t :: pool else u :: put t pool

/-- The pool `base` after `put` of every token of `overrides`. -/
def merge (base overrides : List Token) : List Token :=
  overrides.foldl (fun pool t => put t pool) base

/-- Applies the tokens of a pool one after the other. -/
def applyAll (pool : List Token) (template : String) : String :=
  pool.foldl (fun s t => t.apply s) template

end Token
end Relabel
