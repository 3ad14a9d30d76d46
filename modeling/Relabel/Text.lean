/-!
# Text

Blank characters, trimming, replacing a piece of text and padding, on lists of characters.

* `isBlank`: the Unicode property White_Space.
* `trim`: a text without the blanks at its ends.
* `replaceAll`: every non-overlapping occurrence of a needle, from the left.
-/

namespace Relabel.Text

/-- The character has the Unicode property White_Space. -/
def isBlank (c : Char) : Bool :=
  let n := c.toNat
  (9 ≤ n && n ≤ 13) || n == 0x20 || n == 0x85 || n == 0xA0 || n == 0x1680 ||
    (0x2000 ≤ n && n ≤ 0x200A) || n == 0x2028 || n == 0x2029 || n == 0x202F || n == 0x205F ||
    n == 0x3000

/-! ## Trimming -/

/-- The text without the blanks at its end. -/
def trimEnd (s : List Char) : List Char :=
  (s.reverse.dropWhile isBlank).reverse

/-- The text without the blanks at its start and end. -/
def trim (s : List Char) : List Char :=
  trimEnd (s.dropWhile isBlank)

/-- Nothing but blanks. -/
def isBlankText (s : String) : Bool :=
  s.toList.all isBlank

/-! ## Replacing -/

/-- Replaces the occurrences of a non-empty `w` by `r`, after leaving out `k` characters. -/
def replaceFrom (w r : List Char) : Nat → List Char → List Char
  | _, [] => []
  | k + 1, _ :: s => replaceFrom w r k s
  | 0, c :: s =>
    if w.isPrefixOf (c :: s) then r ++ replaceFrom w r (w.length - 1) s
    else c :: replaceFrom w r 0 s

/-- Replaces every non-overlapping occurrence of `w` by `r`, from the left. The empty text occurs
before every character and at the end. -/
def replaceAll (w r s : List Char) : List Char :=
  match w with
  | [] => r ++ s.flatMap fun c => c :: r
  | _ => replaceFrom w r 0 s

/-- `replaceAll` on strings. -/
def replace (w r s : String) : String :=
  String.ofList (replaceAll w.toList r.toList s.toList)

/-! ## Layout -/

/-- The text followed by as many spaces as bring it to `n` characters. -/
def padRight (n : Nat) (s : String) : String :=
  s ++ String.ofList (List.replicate (n - s.length) ' ')

/-- The number in decimal with at least `n` digits. -/
def padNat (n k : Nat) : String :=
  let digits := Nat.toDigits 10 k
  String.ofList (List.replicate (n - digits.length) '0' ++ digits)

/-- Lower case for the letters A to Z. -/
def lowerAscii (s : String) : String :=
  String.ofList (s.toList.map Char.toLower)

end Relabel.Text
