import Relabel.Yaml.Token.Scalar

/-!
# Reading names, tags and directives

* `anchorName`: the name behind `&` or `*`.
* `tagToken`: a tag, from its exclamation mark.
* `directive`: a directive line, from behind its percent sign.
-/

namespace Relabel.Yaml

/-- Reads the name of an anchor or alias. -/
def anchorName (s : List Char) (place : Place) : Except Problem (Scanned (List Char)) :=
  let r := scanWhile isWordChar s place
  let ends := endsWord r.rest || r.rest.head?.any fun c => "?:,]\x7d%@\x60".toList.contains c
  if r.value.isEmpty || !ends then .error .badAnchor else .ok r

/-! ## Tags -/

/-- The character may stand in a tag. `wide` admits the marks that end tags elsewhere. -/
def isTagChar (wide : Bool) (c : Char) : Bool :=
  isWordChar c || ";/?:@&=+$.%!~*'()".toList.contains c || (wide && ",[]".toList.contains c)

/-- How many bytes the character has that begins with the byte `n`. -/
def widthOf? (n : Nat) : Option Nat :=
  if n < 0x80 then some 1
  else if 0xC0 ≤ n && n < 0xE0 then some 2
  else if 0xE0 ≤ n && n < 0xF0 then some 3
  else if 0xF0 ≤ n && n < 0xF8 then some 4
  else none

/-- How many bytes of a character are missing once the escaped byte `n` has been read, where
`missing` were missing before. -/
def missingAfter? (missing n : Nat) : Option Nat :=
  match missing with
  | 0 => (widthOf? n).map (· - 1)
  | k + 1 => if 0x80 ≤ n && n < 0xC0 then some k else none

/-- Reads the text of a tag. A percent sign gives a byte by two digits; `missing` bytes of a
character must still be given so. The first `skip` characters belong to such a byte. -/
def tagText (wide : Bool) (skip missing : Nat) (place : Place) :
    List Char → Except Problem (Scanned (List UInt8))
  | [] => if missing = 0 then .ok ⟨[], [], place⟩ else .error .badTag
  | c :: s =>
    match skip with
    | k + 1 => tagText wide k missing (place.after c) s
    | 0 =>
      if c == '%' then
        match (s.take 2).length == 2, hexNumber? (s.take 2) with
        | true, some n =>
          match missingAfter? missing n with
          | some missing => do
            let r ← tagText wide 2 missing (place.after c) s
            .ok (r.map (n.toUInt8 :: ·))
          | none => .error .badTag
        | _, _ => .error .badTag
      else if missing ≠ 0 then .error .badTag
      else if isTagChar wide c then do
        let r ← tagText wide 0 0 (place.after c) s
        .ok (r.map (c.toNat.toUInt8 :: ·))
      else .ok ⟨[], c :: s, place⟩

/-- ASCII characters as bytes. -/
def asciiBytes (s : List Char) : List UInt8 := s.map fun c => c.toNat.toUInt8

/-- The exclamation mark, which is a handle and a tag of its own. -/
def bang : List UInt8 := asciiBytes ['!']

/-- Reads what may be the handle of a tag: an exclamation mark, a word, and one more mark. -/
def tagHandle (s : List Char) (place : Place) : Except Problem (Scanned (List Char)) :=
  match s with
  | '!' :: s =>
    let r := scanWhile isWordChar s (place.after '!')
    match r.rest with
    | '!' :: rest => .ok ⟨'!' :: r.value ++ ['!'], rest, r.place.after '!'⟩
    | _ => .ok (r.before ['!'])
  | _ => .error .badTag

/-- The text is a handle that a tag follows. -/
def isFullHandle (handle : List Char) : Bool :=
  2 ≤ handle.length && handle.getLast? == some '!'

/-- Reads a tag: handle and text. The handle is empty for a tag that stands for itself. -/
def tagParts (s : List Char) (place : Place) :
    Except Problem (Scanned (List UInt8 × List UInt8)) :=
  match s with
  | '!' :: '<' :: s => do
    let r ← tagText true 0 0 ((place.after '!').after '<') s
    match r.value.isEmpty, r.rest with
    | false, '>' :: rest => .ok ⟨([], r.value), rest, r.place.after '>'⟩
    | _, _ => .error .badTag
  | s => do
    let h ← tagHandle s place
    let r ← tagText false 0 0 h.place h.rest
    if isFullHandle h.value then
      if r.value.isEmpty then .error .badTag else .ok (r.map (asciiBytes h.value, ·))
    else
      let text := asciiBytes h.value.tail ++ r.value
      .ok (r.map fun _ => if text.isEmpty then ([], bang) else (bang, text))

/-- Reads a tag and sees that it ends. -/
def tagToken (inFlow : Bool) (s : List Char) (place : Place) : Except Problem (Scanned Token) := do
  let r ← tagParts s place
  if (inFlow && r.rest.head? == some ',') || endsWord r.rest then
    .ok (r.map fun (handle, text) => .tag handle text)
  else .error .badTag

/-! ## Directives -/

/-- Leaves out a comment, if one comes. -/
def skipComment (s : List Char) (place : Place) : Scanned Unit :=
  if s.head? == some '#' then (scanWhile (fun c => !isBreak c) s place).map fun _ => ()
  else ⟨(), s, place⟩

/-- Leaves out blanks and a comment, and sees that the line ends; leaves out its end. -/
def closeLine (problem : Problem) (s : List Char) (place : Place) : Except Problem (Scanned Unit) :=
  let r := scanWhile isBlank s place
  let r := skipComment r.rest r.place
  match r.rest with
  | [] => .ok r
  | c :: rest => if isBreak c then .ok ⟨(), rest, r.place.after c⟩ else .error problem

/-- Reads a number of a version, which has nine digits at most. -/
def versionNumber (s : List Char) (place : Place) : Except Problem (Scanned Nat) :=
  let r := scanWhile Char.isDigit s place
  if r.value.isEmpty || 9 < r.value.length then .error .badDirective
  else .ok (r.map fun ds => ds.foldl (fun n c => 10 * n + (c.toNat - '0'.toNat)) 0)

/-- Reads the two numbers of a version. -/
def versionToken (s : List Char) (place : Place) : Except Problem (Scanned Token) := do
  let major ← versionNumber s place
  match major.rest with
  | '.' :: rest =>
    let minor ← versionNumber rest (major.place.after '.')
    .ok (minor.map (.version major.value))
  | _ => .error .badDirective

/-- Reads a handle and what it stands for. -/
def tagDirective (s : List Char) (place : Place) : Except Problem (Scanned Token) := do
  let h ← tagHandle s place
  if !(isFullHandle h.value || h.value == ['!']) || !h.rest.head?.any isBlank then
    .error .badDirective
  else
    let blanks := scanWhile isBlank h.rest h.place
    let r ← tagText true 0 0 blanks.place blanks.rest
    if r.value.isEmpty || !endsWord r.rest then .error .badDirective
    else .ok (r.map (.tagDirective (asciiBytes h.value)))

/-- Reads a directive to the end of its line. -/
def directive (s : List Char) (place : Place) : Except Problem (Scanned Token) := do
  let name := scanWhile isWordChar s place
  let blanks := scanWhile isBlank name.rest name.place
  if !endsWord name.rest then .error .badDirective
  else
    let t ←
      if name.value = "YAML".toList then versionToken blanks.rest blanks.place
      else if name.value = "TAG".toList then tagDirective blanks.rest blanks.place
      else .error .badDirective
    let r ← closeLine .badDirective t.rest t.place
    .ok (r.map fun _ => t.value)

end Relabel.Yaml
