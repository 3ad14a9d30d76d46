import Relabel.Item.Selection
import Relabel.Token.Basic

/-!
# Resolving templates

The tokens of a run: some are the same for every item, and one may stand for a text that each item
has of its own.

* `Setting.tokens`: the tokens that do not depend on the item.
* `Resolver`: the tokens of each member of a selection.
* `Resolver.resolve`: the replacement that a template gives for a member.
-/

namespace Relabel

/-- What the tokens of a run are taken from. -/
structure Setting where
  now : Moment
  project : String
  user : String
  deriving DecidableEq, Repr

namespace Setting

/-- The tokens that do not depend on the item. -/
def tokens (s : Setting) : List Token := [
  ⟨"am/pm", "<pp>", some (if s.now.isAfternoon then "pm" else "am")⟩,
  ⟨"AM/PM", "<PP>", some (if s.now.isAfternoon then "PM" else "AM")⟩,
  ⟨"Day", "<DD>", some s.now.dayText⟩,
  ⟨"Hour (12hr)", "<hh>", some s.now.clockHourText⟩,
  ⟨"Hour (24hr)", "<HH>", some s.now.hourText⟩,
  ⟨"Minute", "<mm>", some s.now.minuteText⟩,
  ⟨"Month", "<MM>", some s.now.monthText⟩,
  ⟨"Project", "<project>", some s.project⟩,
  ⟨"User", "<user>", some s.user⟩,
  ⟨"Year (YYYY)", "<YYYY>", some s.now.yearText⟩,
  ⟨"Year (YY)", "<YY>", some s.now.shortYearText⟩]

end Setting

/-- What an item's own text is called in a template. -/
inductive Lookup where
  | none
  | colourSpace
  | shotName
  deriving DecidableEq, Repr

namespace Lookup

/-- Label and placeholder of the token for an item's own text. -/
def slot? : Lookup → Option (String × String)
  | none => .none
  | colourSpace => some ("Colour Space", "<colour space>")
  | shotName => some ("Shot Name", "<shot name>")

/-- The tokens of one item; a failed look-up counts as no text. -/
def tokens (l : Lookup) (item : Item) : List Token :=
  match l.slot? with
  | .none => []
  | some (label, placeholder) => [⟨label, placeholder, item.context.toOption.join⟩]

/-- What is said about a failed look-up. -/
def complaints (l : Lookup) (item : Item) : List Journal.Entry :=
  match l.slot?, item.context with
  | some (label, _), .error e => [.record .debug s!"No {label} for '{item.name}': {e.message}"]
  | _, _ => []

end Lookup

/-- The tokens of a run, those of each member of the selection in order. -/
structure Resolver where
  generic : List Token
  contextual : List (List Token)
  deriving DecidableEq, Repr

namespace Resolver

def ofSelection (setting : Setting) (selection : Selection) (lookup : Lookup) : Resolver :=
  ⟨setting.tokens, selection.members.map lookup.tokens⟩

/-- For how many members there are tokens. -/
def size (r : Resolver) : Nat := r.contextual.length

/-- The tokens of member `i` alone; none if there is no such member. -/
def own (r : Resolver) (i : Nat) : List Token := r.contextual[i]?.getD []

/-- All tokens of member `i`. -/
def pool (r : Resolver) (i : Nat) : List Token := Token.merge r.generic (r.own i)

/-- The tokens that a user is offered: those of the first member. -/
def offered (r : Resolver) : List Token := r.pool 0

/-- The replacement for member `i`. What is no placeholder stays as it is. -/
def resolve (r : Resolver) (i : Nat) (template : String) : String :=
  Token.applyAll (r.pool i) template

/-- The replacements for all members. -/
def resolveAll (r : Resolver) (template : String) : List String :=
  (List.range r.size).map fun i => r.resolve i template

end Resolver
end Relabel
