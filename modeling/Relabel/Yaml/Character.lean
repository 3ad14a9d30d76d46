/-!
# Characters of the data language

Which characters a file may hold, which of them end lines, and how the text of a file is made ready
for reading.

* `readable?`: the characters of a file, all line ends alike.
-/

namespace Relabel.Yaml

/-- The character ends a line. Carriage returns and next-line characters count as line feeds and
have given way to them. -/
def isBreak (c : Char) : Bool := c == '\n' || c == '\u2028' || c == '\u2029'

/-- A space or a tab. -/
def isBlank (c : Char) : Bool := c == ' ' || c == '\t'

/-- A letter, a digit, a hyphen or an underscore, which names are made of. -/
def isWordChar (c : Char) : Bool := c.isAlphanum || c == '-' || c == '_'

/-- The text ends here, or a blank or a line end comes. -/
def endsWord : List Char → Bool
  | [] => true
  | c :: _ => isBlank c || isBreak c

/-- A file may hold the character. -/
def isAllowed (c : Char) : Bool :=
  let n := c.toNat
  n == 0x09 || n == 0x0A || n == 0x0D || (0x20 ≤ n && n ≤ 0x7E) || n == 0x85 ||
    (0xA0 ≤ n && n ≤ 0xFFFD) || 0x10000 ≤ n

/-- The mark that may open a file. It takes a column, so that what follows it on the first line is
indented by one. -/
def byteOrderMark : Char := '\uFEFF'

/-- Puts one line feed for each carriage return, for each carriage return with a line feed, and for
each next-line character. -/
def unifyBreaks : List Char → List Char
  | [] => []
  | '\r' :: '\n' :: s => '\n' :: unifyBreaks s
  | c :: s => (if c == '\r' || c == '\u0085' then '\n' else c) :: unifyBreaks s

/-- The characters of a file; none if it holds a character that it may not hold. -/
def readable? (text : String) : Option (List Char) :=
  let s := text.toList
  if s.all isAllowed then some (unifyBreaks s) else none

end Relabel.Yaml
