import Relabel.Yaml.Token

/-!
# Reading scalars

Scalars stand plain, in single or double quotes, or as blocks of lines. In the first three, blanks
at the ends of lines do not count and line ends fold into spaces.

* `plain`, `singleQuoted`, `doubleQuoted`: a scalar from its first character, or from behind the
  opening quote, up to its end.
* `blockScalar`: a block from behind its header line.
-/

namespace Relabel.Yaml

/-! ## Folding -/

/-- Blanks and line ends that have been read and whose meaning hangs on what comes. -/
inductive Pending where
  | none
  /-- Blanks within a line. -/
  | blanks (s : List Char)
  /-- A line end, which is missing if it was escaped, and the line ends after it. -/
  | breaks (first more : List Char)
  deriving DecidableEq, Repr

namespace Pending

def addBlank (c : Char) : Pending → Pending
  | none => blanks [c]
  | blanks s => blanks (s ++ [c])
  | breaks first more => breaks first more

def addBreak (c : Char) : Pending → Pending
  | breaks first more => breaks first (more ++ [c])
  | _ => breaks [c] []

/-- A line has ended. -/
def isBreaks : Pending → Bool
  | breaks .. => true
  | _ => false

/-- What stands for the blanks and line ends in the scalar. A single line feed folds into a
space. -/
def text : Pending → List Char
  | none => []
  | blanks s => s
  | breaks first more =>
    if first = ['\n'] then (if more.isEmpty then [' '] else more) else first ++ more

end Pending

/-! ## Plain scalars -/

/-- A bracket, a brace or a comma, which have a meaning within brackets and braces. -/
def isFlowMark (c : Char) : Bool :=
  c == ',' || c == '[' || c == ']' || c == '\x7b' || c == '\x7d'

/-- A plain scalar ends before the non-empty text `s`. -/
def endsPlain (inFlow : Bool) (indent : Nat) (pending : Pending) (place : Place) : List Char → Bool
  | [] => true
  | c :: s =>
    (pending != .none && (c == '#' || (!inFlow && place.column < indent))) ||
      (place.column == 0 && isDocumentMark (c :: s)) ||
      (c == ':' && endsWord s) || (inFlow && isFlowMark c)

/-- Reads a plain scalar whose further lines are indented by `indent` at least. The answer also
tells whether a line has ended behind the scalar. -/
def plain (inFlow : Bool) (indent : Nat) (pending : Pending) (place : Place) :
    List Char → Except Problem (Scanned (List Char × Bool))
  | [] => .ok ⟨([], pending.isBreaks), [], place⟩
  | c :: s =>
    if isBreak c then plain inFlow indent (pending.addBreak c) (place.after c) s
    else if isBlank c then
      if pending.isBreaks && place.column < indent && c == '\t' then .error .tabIndent
      else plain inFlow indent (pending.addBlank c) (place.after c) s
    else if endsPlain inFlow indent pending place (c :: s) then
      .ok ⟨([], pending.isBreaks), c :: s, place⟩
    else if inFlow && c == ':' && s.head?.any (fun d => d == '?' || isFlowMark d) then
      .error .colonInFlow
    else do
      let r ← plain inFlow indent .none (place.after c) s
      .ok (r.map fun (t, broken) => (pending.text ++ c :: t, broken))

/-! ## Quoted scalars -/

/-- Reads a scalar in single quotes, in which a quote is written twice. -/
def singleQuoted (pending : Pending) (place : Place) :
    List Char → Except Problem (Scanned (List Char))
  | [] => .error .unclosedText
  | c :: s =>
    if isBreak c then singleQuoted (pending.addBreak c) (place.after c) s
    else if isBlank c then singleQuoted (pending.addBlank c) (place.after c) s
    else if place.column == 0 && isDocumentMark (c :: s) then .error .markInText
    else if c == '\'' then
      match s with
      | '\'' :: s => do
        let r ← singleQuoted .none ((place.after '\'').after '\'') s
        .ok (r.before (pending.text ++ ['\'']))
      | s => .ok ⟨pending.text, s, place.after c⟩
    else do
      let r ← singleQuoted .none (place.after c) s
      .ok (r.before (pending.text ++ [c]))

/-- The value of a hexadecimal digit. -/
def hexDigit? (c : Char) : Option Nat :=
  if c.isDigit then some (c.toNat - '0'.toNat)
  else if 'a' ≤ c && c ≤ 'f' then some (c.toNat - 'a'.toNat + 10)
  else if 'A' ≤ c && c ≤ 'F' then some (c.toNat - 'A'.toNat + 10)
  else none

/-- The value of a hexadecimal number. -/
def hexNumber? (s : List Char) : Option Nat :=
  s.foldlM (fun n c => (hexDigit? c).map (16 * n + ·)) 0

/-- The character of a code point. -/
def charOfNumber? (n : Nat) : Option Char :=
  if n < 0xD800 || (0xDFFF < n && n ≤ 0x10FFFF) then some (Char.ofNat n) else none

/-- An escape by `n` hexadecimal digits. -/
def numberEscape? (n : Nat) (s : List Char) : Option (Char × Nat) := do
  let digits := s.take n
  if digits.length < n then none else
    let value ← hexNumber? digits
    let c ← charOfNumber? value
    pure (c, n + 1)

/-- What the text behind a backslash stands for, and how many characters it takes. -/
def escape? : List Char → Option (Char × Nat)
  | [] => none
  | c :: s =>
    match c with
    | '0' => some ('\x00', 1)
    | 'a' => some ('\x07', 1)
    | 'b' => some ('\x08', 1)
    | 't' | '\t' => some ('\t', 1)
    | 'n' => some ('\n', 1)
    | 'v' => some ('\x0b', 1)
    | 'f' => some ('\x0c', 1)
    | 'r' => some ('\r', 1)
    | 'e' => some ('\x1b', 1)
    | ' ' => some (' ', 1)
    | '"' => some ('"', 1)
    | '/' => some ('/', 1)
    | '\\' => some ('\\', 1)
    | 'N' => some ('\u0085', 1)
    | '_' => some ('\u00a0', 1)
    | 'L' => some ('\u2028', 1)
    | 'P' => some ('\u2029', 1)
    | 'x' => numberEscape? 2 s
    | 'u' => numberEscape? 4 s
    | 'U' => numberEscape? 8 s
    | _ => none

/-- Reads a scalar in double quotes; the first `skip` characters belong to an escape. -/
def doubleQuoted (skip : Nat) (pending : Pending) (place : Place) :
    List Char → Except Problem (Scanned (List Char))
  | [] => .error .unclosedText
  | c :: s =>
    match skip with
    | k + 1 => doubleQuoted k pending (place.after c) s
    | 0 =>
      if isBreak c then doubleQuoted 0 (pending.addBreak c) (place.after c) s
      else if isBlank c then doubleQuoted 0 (pending.addBlank c) (place.after c) s
      else if place.column == 0 && isDocumentMark (c :: s) then .error .markInText
      else if c == '"' then .ok ⟨pending.text, s, place.after c⟩
      else if c == '\\' then
        if s.head?.any isBreak then do
          let r ← doubleQuoted 1 (.breaks [] []) (place.after c) s
          .ok (r.before pending.text)
        else
          match escape? s with
          | none => .error .badEscape
          | some (d, n) => do
            let r ← doubleQuoted n .none (place.after c) s
            .ok (r.before (pending.text ++ [d]))
      else do
        let r ← doubleQuoted 0 .none (place.after c) s
        .ok (r.before (pending.text ++ [c]))

/-! ## Block scalars -/

/-- What becomes of the line ends that close a block. -/
inductive Chomping where
  | strip
  | clip
  | keep
  deriving DecidableEq, Repr

/-- The header of a block: how its end is chomped, and its indentation if it is given. -/
structure BlockHeader where
  chomping : Chomping
  indent : Option Nat
  deriving DecidableEq, Repr

/-- The chomping that a character asks for. -/
def chomping? : Char → Option Chomping
  | '+' => some .keep
  | '-' => some .strip
  | _ => none

/-- Reads the signs of a block's header, in either order; the digit 0 gives no indentation. -/
def blockHeader : List Char → Except Problem (BlockHeader × List Char)
  | [] => .ok (⟨.clip, none⟩, [])
  | c :: s =>
    match chomping? c with
    | some chomp =>
      match s with
      | d :: r =>
        if d == '0' then .error .badHeader
        else if d.isDigit then .ok (⟨chomp, some (d.toNat - '0'.toNat)⟩, r)
        else .ok (⟨chomp, none⟩, s)
      | [] => .ok (⟨chomp, none⟩, s)
    | none =>
      if c == '0' then .error .badHeader
      else if c.isDigit then
        match s with
        | d :: r =>
          match chomping? d with
          | some chomp => .ok (⟨chomp, some (c.toNat - '0'.toNat)⟩, r)
          | none => .ok (⟨.clip, some (c.toNat - '0'.toNat)⟩, s)
        | [] => .ok (⟨.clip, some (c.toNat - '0'.toNat)⟩, s)
      else .ok (⟨.clip, none⟩, c :: s)

/-- Reads the empty lines that open a block whose indentation is not given, and finds the
greatest column that their blanks reach. The answer's value holds the line ends and the column. -/
def openingBreaks (greatest : Nat) (place : Place) :
    List Char → Except Problem (Scanned (List Char × Nat))
  | [] => .ok ⟨([], max greatest place.column), [], place⟩
  | c :: s =>
    if c == ' ' then openingBreaks greatest (place.after c) s
    else if c == '\t' then .error .tabIndent
    else if isBreak c then do
      let r ← openingBreaks (max greatest place.column) (place.after c) s
      .ok (r.map fun (t, m) => (c :: t, m))
    else .ok ⟨([], max greatest place.column), c :: s, place⟩

/-- Where the reader is in a block: within a line, which may have begun with a blank, or behind a
line end, with further line ends after it. -/
inductive BlockState where
  | line (blank : Bool)
  | gap (first : List Char) (blank : Bool) (more : List Char)
  deriving DecidableEq, Repr

/-- The line ends before a line that begins with `c`. In a folded block a line feed between two
lines that do not begin with blanks is a space, or nothing if empty lines come after it. -/
def joinLines (folded : Bool) (first : List Char) (blank : Bool) (more : List Char) (c : Char) :
    List Char :=
  if folded && first == ['\n'] && !blank && !isBlank c then
    (if more.isEmpty then [' '] else []) ++ more
  else first ++ more

/-- The line ends that close a block. -/
def closingBreaks (chomp : Chomping) (first more : List Char) : List Char :=
  match chomp with
  | .strip => []
  | .clip => first
  | .keep => first ++ more

/-- Reads the lines of a block that are indented by `indent`. -/
def blockLines (folded : Bool) (chomp : Chomping) (indent : Nat) (state : BlockState)
    (place : Place) : List Char → Except Problem (Scanned (List Char))
  | [] =>
    match state with
    | .line _ => .ok ⟨[], [], place⟩
    | .gap first _ more => .ok ⟨closingBreaks chomp first more, [], place⟩
  | c :: s =>
    match state with
    | .line blank =>
      if isBreak c then blockLines folded chomp indent (.gap [c] blank []) (place.after c) s
      else do
        let r ← blockLines folded chomp indent (.line blank) (place.after c) s
        .ok (r.before [c])
    | .gap first blank more =>
      if place.column < indent && c == ' ' then
        blockLines folded chomp indent state (place.after c) s
      else if place.column < indent && c == '\t' then .error .tabIndent
      else if isBreak c then
        blockLines folded chomp indent (.gap first blank (more ++ [c])) (place.after c) s
      else if place.column < indent then
        .ok ⟨closingBreaks chomp first more, c :: s, place⟩
      else do
        let r ← blockLines folded chomp indent (.line (isBlank c)) (place.after c) s
        .ok (r.before (joinLines folded first blank more c ++ [c]))

/-- Reads a block from behind its header line. `parent` is the least indentation that a block may
have at this place, and the one that a given indentation is added to is `base`. -/
def blockScalar (folded : Bool) (header : BlockHeader) (base parent : Nat) (s : List Char)
    (place : Place) : Except Problem (Scanned (List Char)) :=
  match header.indent with
  | some n => blockLines folded header.chomping (base + n) (.gap [] false []) place s
  | none => do
    let r ← openingBreaks 0 place s
    let indent := max r.value.2 parent
    blockLines folded header.chomping indent (.gap [] false r.value.1) r.place r.rest

end Relabel.Yaml
