import Relabel.Yaml.Token.Property

/-!
# From text to tokens

The tokens of a file in order. Indentation opens and closes blocks, so that it gives tokens too; a
block is opened when its first key or entry is met. That a scalar, a tag or a bracket opens a key
shows only at the colon behind it: the scanner remembers the place, and puts the tokens of the key
in there once the colon comes.

* `Scan`: what the scanner knows.
* `Scan.step`: reads one token.
* `tokens`: all tokens of a file.
-/

namespace Relabel.Yaml

/-- A place where a key may have begun. -/
structure Candidate where
  /-- A colon must come, as nothing else can stand here. -/
  required : Bool
  /-- How many tokens came before it. -/
  number : Nat
  place : Place
  deriving DecidableEq, Repr

/-- What the scanner knows between two tokens. -/
structure Scan where
  rest : List Char
  place : Place
  /-- The columns of the open blocks, the innermost first. -/
  indents : List Nat
  /-- Where a key may have begun within the innermost bracket, or outside all brackets. -/
  candidate : Option Candidate
  /-- The same outside each open bracket, the innermost bracket first. -/
  outer : List (Option Candidate)
  /-- A key may begin here. -/
  keyAllowed : Bool
  /-- The tokens, the last first. -/
  read : List Token
  deriving DecidableEq, Repr

namespace Scan

def start (s : List Char) : Scan := ⟨s, .start, [], none, [], true, []⟩

/-- Within brackets or braces, where indentation does not count. -/
def inFlow (s : Scan) : Bool := !s.outer.isEmpty

/-- The least indentation of what belongs to the innermost block. -/
def innerIndent (s : Scan) : Nat := (s.indents.head?.map (· + 1)).getD 0

def emit (t : Token) (s : Scan) : Scan := { s with read := t :: s.read }

/-- Moves on behind what has been read. -/
def moveTo {α : Type} (r : Scanned α) (s : Scan) : Scan :=
  { s with rest := r.rest, place := r.place }

/-- Moves on by `n` characters. -/
def skip (n : Nat) (s : Scan) : Scan :=
  { s with rest := s.rest.drop n, place := s.place.afterAll (s.rest.take n) }

/-! ## Between tokens -/

/-- Leaves out blanks, comments and line ends. A tab does not count as a blank where a key may
begin, and a line end lets one begin; `inComment` says that the rest of the line is a comment. -/
def skipGap (inFlow : Bool) (keyAllowed inComment : Bool) (place : Place) :
    List Char → Scanned Bool
  | [] => ⟨keyAllowed, [], place⟩
  | c :: s =>
    if isBreak c then skipGap inFlow (keyAllowed || !inFlow) false (place.after c) s
    else if inComment || c == '#' then skipGap inFlow keyAllowed true (place.after c) s
    else if c == ' ' || (c == '\t' && (inFlow || !keyAllowed)) ||
        (c == byteOrderMark && place.index == 0) then
      skipGap inFlow keyAllowed false (place.after c) s
    else ⟨keyAllowed, c :: s, place⟩

/-- Leaves out what stands between two tokens. -/
def toNext (s : Scan) : Scan :=
  let r := skipGap s.inFlow s.keyAllowed false s.place s.rest
  { s.moveTo r with keyAllowed := r.value }

/-! ## Indentation -/

/-- Closes the blocks that a token in this column does not belong to; in no column, all blocks. -/
def closeBlocks (column : Option Nat) (s : Scan) : Scan :=
  if s.inFlow then s else
    let closed := s.indents.takeWhile fun i => column.all (· < i)
    { s with
      indents := s.indents.drop closed.length
      read := List.replicate closed.length .blockEnd ++ s.read }

/-- Opens a block in this column, unless the innermost one is there already; `behind` tokens come
after the one that opens it. -/
def openBlock (t : Token) (column behind : Nat) (s : Scan) : Scan :=
  if s.inFlow || s.indents.head?.any (column ≤ ·) then s else
    { s with
      indents := column :: s.indents
      read := s.read.take behind ++ t :: s.read.drop behind }

/-! ## Keys -/

/-- No colon has come; that is wrong if one had to. -/
def dropCandidate (s : Scan) : Except Problem Scan :=
  if s.candidate.any (·.required) then .error .unfinishedKey
  else .ok { s with candidate := none }

/-- Remembers that a key may begin with the next token. -/
def markCandidate (s : Scan) : Except Problem Scan :=
  if s.keyAllowed then do
    let s ← s.dropCandidate
    let required := !s.inFlow && s.indents.head? == some s.place.column
    .ok { s with candidate := some ⟨required, s.read.length, s.place⟩ }
  else .ok s

/-- The longest key that needs no question mark. -/
def maxKey : Nat := 1024

/-- The place where the key began that ends here. A key ends on its line and is not too long. -/
def keyStart (s : Scan) : Except Problem (Option Candidate) :=
  match s.candidate with
  | none => .ok none
  | some k =>
    if k.place.line < s.place.line || k.place.index + maxKey < s.place.index then
      if k.required then .error .unfinishedKey else .ok none
    else .ok (some k)

/-! ## Tokens -/

/-- Reads a mark of `n` characters. -/
def takeMark (t : Token) (n : Nat) (s : Scan) : Scan := (s.skip n).emit t

/-- Reads the mark of a document's start or end. -/
def takeDocumentMark (t : Token) (s : Scan) : Except Problem Scan := do
  let s ← (s.closeBlocks none).dropCandidate
  let s := { s with keyAllowed := false }
  .ok (s.takeMark t 3)

def takeDirective (s : Scan) : Except Problem Scan := do
  let s ← (s.closeBlocks none).dropCandidate
  let s := { s.skip 1 with keyAllowed := false }
  let r ← directive s.rest s.place
  .ok ((s.moveTo r).emit r.value)

/-- Reads an opening bracket. -/
def takeOpening (t : Token) (s : Scan) : Except Problem Scan := do
  let s ← s.markCandidate
  let s := { s with candidate := none, outer := s.candidate :: s.outer, keyAllowed := true }
  .ok (s.takeMark t 1)

/-- Reads a closing bracket. -/
def takeClosing (t : Token) (s : Scan) : Except Problem Scan := do
  let s ← s.dropCandidate
  let s := { s with
    candidate := s.outer.head?.join, outer := s.outer.tail, keyAllowed := false }
  .ok (s.takeMark t 1)

def takeFlowEntry (s : Scan) : Except Problem Scan := do
  let s ← s.dropCandidate
  let s := { s with keyAllowed := true }
  .ok (s.takeMark .flowEntry 1)

def takeBlockEntry (s : Scan) : Except Problem Scan := do
  if !s.inFlow && !s.keyAllowed then .error .misplacedEntry
  else
    let s ← (s.openBlock .blockSequenceStart s.place.column 0).dropCandidate
    let s := { s with keyAllowed := true }
    .ok (s.takeMark .blockEntry 1)

def takeKey (s : Scan) : Except Problem Scan := do
  if !s.inFlow && !s.keyAllowed then .error .misplacedKey
  else
    let s ← (s.openBlock .blockMappingStart s.place.column 0).dropCandidate
    let s := { s with keyAllowed := !s.inFlow }
    .ok (s.takeMark .key 1)

def takeValue (s : Scan) : Except Problem Scan := do
  match ← s.keyStart with
  | some k =>
    let behind := s.read.length - k.number
    let s := { s with read := s.read.take behind ++ Token.key :: s.read.drop behind }
    let s := s.openBlock .blockMappingStart k.place.column (behind + 1)
    let s := { s with candidate := none, keyAllowed := false }
    .ok (s.takeMark .value 1)
  | none =>
    if !s.inFlow && !s.keyAllowed then .error .misplacedValue
    else
      let s := s.openBlock .blockMappingStart s.place.column 0
      let s := { s with keyAllowed := !s.inFlow }
      .ok (s.takeMark .value 1)

/-- Reads an anchor or an alias. -/
def takeAnchor (token : List Char → Token) (s : Scan) : Except Problem Scan := do
  let s := { (← s.markCandidate).skip 1 with keyAllowed := false }
  let r ← anchorName s.rest s.place
  .ok ((s.moveTo r).emit (token r.value))

def takeTag (s : Scan) : Except Problem Scan := do
  let s := { ← s.markCandidate with keyAllowed := false }
  let r ← tagToken s.inFlow s.rest s.place
  .ok ((s.moveTo r).emit r.value)

/-- Reads a block of lines. -/
def takeBlockScalar (style : Style) (s : Scan) : Except Problem Scan := do
  let s := { (← s.dropCandidate).skip 1 with keyAllowed := true }
  let (header, rest) ← blockHeader s.rest
  let s := s.skip (s.rest.length - rest.length)
  let line ← closeLine .badHeader s.rest s.place
  let r ← blockScalar (style == .folded) header (s.indents.head?.getD 0) (max s.innerIndent 1)
    line.rest line.place
  .ok ((s.moveTo r).emit (.scalar r.value style))

/-- Reads a quoted scalar. -/
def takeQuoted (style : Style) (s : Scan) : Except Problem Scan := do
  let s := { (← s.markCandidate).skip 1 with keyAllowed := false }
  let r ←
    if style = .single then singleQuoted .none s.place s.rest
    else doubleQuoted 0 .none s.place s.rest
  .ok ((s.moveTo r).emit (.scalar r.value style))

def takePlain (s : Scan) : Except Problem Scan := do
  let s := { ← s.markCandidate with keyAllowed := false }
  let r ← plain s.inFlow s.innerIndent .none s.place s.rest
  .ok { (s.moveTo r).emit (.scalar r.value.1 .plain) with keyAllowed := r.value.2 }

/-- A character that a plain scalar cannot begin with, in general. -/
def isIndicator (c : Char) : Bool := "-?:,[]\x7b\x7d#&*!|>'\"%@\x60".toList.contains c

/-- A plain scalar may begin with `c`, followed by `s`. -/
def startsPlain (inFlow : Bool) (c : Char) (s : List Char) : Bool :=
  !(isBlank c || isBreak c || isIndicator c) ||
    (c == '-' && !s.head?.any isBlank) ||
    (!inFlow && (c == '?' || c == ':') && !endsWord s)

/-- Reads the token that begins with `c`, followed by `r`. -/
def take (s : Scan) (c : Char) (r : List Char) : Except Problem Scan :=
  if s.place.column == 0 && c == '%' then s.takeDirective
  else if s.place.column == 0 && isDocumentMark (c :: r) then
    s.takeDocumentMark (if c == '-' then .documentStart else .documentEnd)
  else if c == '[' then s.takeOpening .flowSequenceStart
  else if c == '\x7b' then s.takeOpening .flowMappingStart
  else if c == ']' then s.takeClosing .flowSequenceEnd
  else if c == '\x7d' then s.takeClosing .flowMappingEnd
  else if c == ',' then s.takeFlowEntry
  else if c == '-' && endsWord r then s.takeBlockEntry
  else if c == '?' && (s.inFlow || endsWord r) then s.takeKey
  else if c == ':' && (s.inFlow || endsWord r) then s.takeValue
  else if c == '*' then s.takeAnchor .alias
  else if c == '&' then s.takeAnchor .anchor
  else if c == '!' then s.takeTag
  else if c == '|' && !s.inFlow then s.takeBlockScalar .literal
  else if c == '>' && !s.inFlow then s.takeBlockScalar .folded
  else if c == '\'' then s.takeQuoted .single
  else if c == '"' then s.takeQuoted .double
  else if startsPlain s.inFlow c r then s.takePlain
  else .error .strayCharacter

/-- Reads one token; none at the end of the file. -/
def step (s : Scan) : Except Problem (Option Scan) :=
  let s := s.toNext
  match s.rest with
  | [] => .ok none
  | c :: r => do .ok (some (← (s.closeBlocks (some s.place.column)).take c r))

/-- What is left to do at the end of a file. -/
def finish (s : Scan) : Except Problem (List Token) := do
  let s ← (s.toNext.closeBlocks none).dropCandidate
  .ok s.read.reverse

/-- Reads on to the end of the file, `fuel` tokens at most. -/
def run : (fuel : Nat) → Scan → Except Problem (List Token)
  | 0, _ => .error .tooLong
  | fuel + 1, s => do
    match ← s.step with
    | none => s.finish
    | some s => s.run fuel

end Scan

/-- The tokens of a file. Every token takes a character at least. -/
def tokens (s : List Char) : Except Problem (List Token) := (Scan.start s).run (s.length + 1)

end Relabel.Yaml
