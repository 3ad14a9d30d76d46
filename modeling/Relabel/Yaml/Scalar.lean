import Relabel.Yaml.Reading

/-!
# Writing scalars

A text is written plain where that reads as the same text. A text that would read as something else
is put in single quotes, one with line feeds becomes a block of lines, and one with characters that
cannot be shown is put in double quotes.

* `looksOther`: texts that do not read as texts when they stand plain.
* `Traits`: what the choice of a style hangs on.
* `writtenStyle`, `written`: the style of a text and its written form.
-/

namespace Relabel.Yaml

/-! ## Numbers -/

/-- An optional sign, and the rest. -/
def cutSign : List Char → Option Char × List Char
  | '+' :: s => (some '+', s)
  | '-' :: s => (some '-', s)
  | s => (none, s)

/-- The value of a digit in some base. -/
def digitIn? (base : Nat) (c : Char) : Option Nat := (hexDigit? c).filter (· < base)

/-- The value of a numeral in some base. -/
def numeralIn? (base : Nat) (s : List Char) : Option Nat :=
  if s.isEmpty then none else s.foldlM (fun n c => (digitIn? base c).map (base * n + ·)) 0

/-- The base that a letter behind a zero stands for. -/
def baseOf? : Char → Option Nat
  | 'x' => some 16
  | 'o' => some 8
  | 'b' => some 2
  | _ => none

/-- An integer with its base in front that has at most 128 bits. -/
def isBasedInteger (s : List Char) : Bool :=
  match cutSign s with
  | (sign, '0' :: c :: digits) =>
    match (baseOf? c).bind fun base => numeralIn? base digits with
    | some n => if sign = some '-' then n ≤ Nat.pow 2 127 else n < Nat.pow 2 128
    | none => false
  | _ => false

/-- Digits, one of which is a needless zero in front. -/
def hasIdleZero (s : List Char) : Bool :=
  match (cutSign s).2 with
  | '0' :: c :: r => (c :: r).all Char.isDigit
  | _ => false

/-- A decimal number: its digits as one integer, and the power of ten that it is multiplied by. -/
structure Decimal where
  digits : Nat
  exponent : Int
  deriving DecidableEq, Repr

/-- The exponent at the end of a decimal number, or no exponent if nothing is there. -/
def exponent? : List Char → Option Int
  | [] => some 0
  | c :: s =>
    if c == 'e' || c == 'E' then
      let (sign, digits) := cutSign s
      (numeralIn? 10 digits).map fun n => if sign = some '-' then -n else n
    else none

/-- The value of a decimal number without a sign. -/
def decimal? (s : List Char) : Option Decimal := do
  let whole := s.takeWhile Char.isDigit
  let (fraction, rest) :=
    match s.dropWhile Char.isDigit with
    | '.' :: r => (r.takeWhile Char.isDigit, r.dropWhile Char.isDigit)
    | r => ([], r)
  let digits ← numeralIn? 10 (whole ++ fraction)
  let e ← exponent? rest
  pure ⟨digits, e - fraction.length⟩

/-- The least number that is too great for a floating-point number of 64 bits. -/
def floatLimit : Nat := Nat.pow 2 1024 - Nat.pow 2 970

/-- The number is less than `floatLimit`, which has 309 digits. -/
def Decimal.isFinite (d : Decimal) : Bool :=
  let length : Int := (Nat.toDigits 10 d.digits).length
  if d.digits = 0 then true
  else if length + d.exponent < 309 then true
  else if 309 < length + d.exponent then false
  else d.digits * Nat.pow 10 d.exponent.toNat < floatLimit * Nat.pow 10 (-d.exponent).toNat

/-- A word for an infinite number or for no number. -/
def isFloatWord (s : List Char) : Bool :=
  [".inf", ".Inf", ".INF", "+.inf", "+.Inf", "+.INF", "-.inf", "-.Inf", "-.INF", ".nan", ".NaN",
    ".NAN"].any fun w => w.toList == s

/-- A floating-point number. -/
def isFloat (s : List Char) : Bool :=
  isFloatWord s || (decimal? (cutSign s).2).any Decimal.isFinite

/-- A plain scalar that looks like this does not read as a text, or not everywhere. -/
def looksOther (s : List Char) : Bool :=
  s.isEmpty || isNullWord s || (truth? s).isSome || isBasedInteger s || hasIdleZero s || isFloat s

/-! ## Styles -/

/-- The character can be shown. -/
def isPrintable (c : Char) : Bool :=
  let n := c.toNat
  n == 0x0A || (0x20 ≤ n && n ≤ 0x7E) || (0xA0 ≤ n && n ≤ 0xFFFD && n != 0xFEFF) || 0x10000 ≤ n

/-- Somewhere in the text a character and the next one are as said. -/
def hasPair (p : Char → Char → Bool) : List Char → Bool
  | c :: d :: s => p c d || hasPair p (d :: s)
  | _ => false

/-- A blank, a line end or the end comes behind the character. -/
def spaceFollows (s : List Char) : Bool := endsWord s || s.head? == some '\x00'

/-- A colon before a blank or at the end, or a number sign behind a blank. -/
def hasInnerMark : List Char → Bool
  | [] => false
  | c :: s => (c == ':' && spaceFollows s) ||
      ((isBlank c || isBreak c || c == '\x00') && s.head? == some '#') || hasInnerMark s

/-- The text begins with a mark that a plain scalar must not begin with. -/
def hasOpeningMark : List Char → Bool
  | [] => false
  | c :: s =>
    "#,[]\x7b\x7d&*!|>'\"%@\x60".toList.contains c ||
      ((c == '?' || c == ':' || c == '-') && spaceFollows s) ||
      "---".toList.isPrefixOf (c :: s) || "...".toList.isPrefixOf (c :: s)

/-- What the choice of a style hangs on. -/
structure Traits where
  /-- Begins or ends with a space or a line end. -/
  looseEnds : Bool
  trailingSpace : Bool
  breaks : Bool
  /-- A space comes behind a line end. -/
  spaceAfterBreak : Bool
  /-- A space comes before a line end. -/
  spaceBeforeBreak : Bool
  unprintable : Bool
  marks : Bool
  deriving DecidableEq, Repr

/-- A space or a line end. -/
def isLoose (c : Char) : Bool := c == ' ' || isBreak c

def Traits.of (s : List Char) : Traits where
  looseEnds := s.head?.any isLoose || s.getLast?.any isLoose
  trailingSpace := s.getLast? == some ' '
  breaks := s.any isBreak
  spaceAfterBreak := hasPair (fun c d => isBreak c && d == ' ') s
  spaceBeforeBreak := hasPair (fun c d => c == ' ' && isBreak d) s
  unprintable := s.any fun c => !isPrintable c
  marks := hasOpeningMark s || hasInnerMark s

namespace Traits

/-- The text can stand plain. -/
def allowsPlain (t : Traits) : Bool :=
  !(t.looseEnds || t.breaks || t.spaceAfterBreak || t.spaceBeforeBreak || t.unprintable || t.marks)

/-- The text can stand in single quotes. -/
def allowsSingle (t : Traits) : Bool :=
  !(t.spaceAfterBreak || t.spaceBeforeBreak || t.unprintable)

/-- The text can be a block of lines. -/
def allowsLiteral (t : Traits) : Bool :=
  !(t.trailingSpace || t.spaceBeforeBreak || t.unprintable)

end Traits

/-- The style that a text is written in. -/
def writtenStyle (s : List Char) : Style :=
  let t := Traits.of s
  if s.contains '\n' then
    if t.allowsLiteral then .literal else .double
  else if !looksOther s && t.allowsPlain then .plain
  else if t.allowsSingle then .single
  else .double

/-! ## Written forms -/

/-- The number in hexadecimal with `n` digits. -/
def hexText (n k : Nat) : List Char :=
  let digits := (Nat.toDigits 16 k).map Char.toUpper
  List.replicate (n - digits.length) '0' ++ digits

/-- A character within double quotes. -/
def escaped (c : Char) : List Char :=
  match c with
  | '\x00' => ['\\', '0']
  | '\x07' => ['\\', 'a']
  | '\x08' => ['\\', 'b']
  | '\t' => ['\\', 't']
  | '\n' => ['\\', 'n']
  | '\x0b' => ['\\', 'v']
  | '\x0c' => ['\\', 'f']
  | '\r' => ['\\', 'r']
  | '\x1b' => ['\\', 'e']
  | '"' => ['\\', '"']
  | '\\' => ['\\', '\\']
  | '\u0085' => ['\\', 'N']
  | '\u2028' => ['\\', 'L']
  | '\u2029' => ['\\', 'P']
  | c =>
    if isPrintable c then [c]
    else if c.toNat ≤ 0xFF then '\\' :: 'x' :: hexText 2 c.toNat
    else if c.toNat ≤ 0xFFFF then '\\' :: 'u' :: hexText 4 c.toNat
    else '\\' :: 'U' :: hexText 8 c.toNat

/-- Spaces. -/
def spaces (n : Nat) : List Char := List.replicate n ' '

/-- The text with its quotes doubled and each line that a line end opens indented; `opened` says
that a line begins here. -/
def quotedLines (indent : Nat) (opened : Bool) : List Char → List Char
  | [] => if opened then spaces indent else []
  | c :: s =>
    if isBreak c then c :: quotedLines indent true s
    else
      (if opened then spaces indent else []) ++ (if c == '\'' then [c, c] else [c]) ++
        quotedLines indent false s

/-- The lines of a text, each that is not empty indented. -/
def blockText (indent : Nat) (opened : Bool) : List Char → List Char
  | [] => []
  | c :: s =>
    if isBreak c then c :: blockText indent true s
    else (if opened then spaces indent else []) ++ c :: blockText indent false s

/-- The header of a block: the indentation must be given if the first line begins with a space or
is empty; `-` says that the last line has no end, and `+` that empty lines come at the end. -/
def blockSigns (s : List Char) : List Char :=
  (if s.head?.any isLoose then ['2'] else []) ++
    match s.reverse with
    | [] => ['-']
    | c :: r =>
      if !isBreak c then ['-']
      else match r with
        | [] => ['+']
        | d :: _ => if isBreak d then ['+'] else []

/-- The written form of a text whose further lines are indented by `indent`. -/
def written (indent : Nat) (s : List Char) : List Char :=
  match writtenStyle s with
  | .plain => s
  | .single => '\'' :: quotedLines indent false s ++ ['\'']
  | .double => '"' :: s.flatMap escaped ++ ['"']
  | .literal | .folded => '|' :: blockSigns s ++ '\n' :: blockText indent true s

end Relabel.Yaml
