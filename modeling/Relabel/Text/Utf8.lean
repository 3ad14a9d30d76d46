/-!
# UTF-8

Bytes as text. `decode` refuses bytes that are not UTF-8 and says where; `lossy` shows each
ill-formed piece as one replacement character.

* `Shape`: what stands at the head of a list of bytes.
* `Fault`: the place and extent of the first ill-formed piece.
-/

namespace Relabel.Utf8

/-- What the head of a list of bytes is: a character of some width, an ill-formed piece of some
width, or a character that the end of the bytes cuts off. -/
inductive Shape where
  | whole (width : Nat)
  | broken (width : Nat)
  | cut
  deriving DecidableEq, Repr

/-- A byte inside a character. -/
def isTail (b : UInt8) : Bool := 0x80 ≤ b && b ≤ 0xBF

/-- The shape of a character of three or four bytes whose second byte lies between `lo` and `hi`. -/
def shapeLong (width : Nat) (lo hi : UInt8) : List UInt8 → Shape
  | [] => .cut
  | b :: r =>
    if !(lo ≤ b && b ≤ hi) then .broken 1 else
      match r with
      | [] => .cut
      | c :: r =>
        if !isTail c then .broken 2 else
          if width = 3 then .whole 3 else
            match r with
            | [] => .cut
            | d :: _ => if isTail d then .whole 4 else .broken 3

/-- The shape of the head of `b :: r`. -/
def shape (b : UInt8) (r : List UInt8) : Shape :=
  if b ≤ 0x7F then .whole 1
  else if 0xC2 ≤ b && b ≤ 0xDF then
    match r with
    | [] => .cut
    | c :: _ => if isTail c then .whole 2 else .broken 1
  else if b == 0xE0 then shapeLong 3 0xA0 0xBF r
  else if b == 0xED then shapeLong 3 0x80 0x9F r
  else if 0xE1 ≤ b && b ≤ 0xEF then shapeLong 3 0x80 0xBF r
  else if b == 0xF0 then shapeLong 4 0x90 0xBF r
  else if 0xF1 ≤ b && b ≤ 0xF3 then shapeLong 4 0x80 0xBF r
  else if b == 0xF4 then shapeLong 4 0x80 0x8F r
  else .broken 1

/-- The first ill-formed piece: how many bytes before it are text, and its width unless the bytes
end inside a character. -/
structure Fault where
  index : Nat
  width : Option Nat
  deriving DecidableEq, Repr

def Fault.message : Fault → String
  | ⟨i, some w⟩ => s!"invalid utf-8 sequence of {w} bytes from index {i}"
  | ⟨i, none⟩ => s!"incomplete utf-8 byte sequence from index {i}"

/-- The first fault at or after byte `i`, the next `k` bytes belonging to a character already
looked at. -/
def faultFrom (i : Nat) : Nat → List UInt8 → Option Fault
  | _, [] => none
  | k + 1, _ :: r => faultFrom (i + 1) k r
  | 0, b :: r =>
    match shape b r with
    | .whole w => faultFrom (i + 1) (w - 1) r
    | .broken w => some ⟨i, some w⟩
    | .cut => some ⟨i, none⟩

/-- The bytes of a text. -/
def encode (s : String) : List UInt8 := s.toUTF8.toList

/-- The text of some bytes, if they are UTF-8. -/
def text? (bytes : List UInt8) : Option String := String.fromUTF8? ⟨bytes.toArray⟩

/-- The text of some bytes, or where they stop being UTF-8. -/
def decode (bytes : List UInt8) : Except Fault String :=
  match text? bytes with
  | some s => .ok s
  | none => .error ((faultFrom 0 0 bytes).getD ⟨0, none⟩)

/-- The characters of some bytes after the next `k`, ill-formed pieces shown as U+FFFD. -/
def lossyFrom : Nat → List UInt8 → List Char
  | _, [] => []
  | k + 1, _ :: r => lossyFrom k r
  | 0, b :: r =>
    match shape b r with
    | .whole w => ((text? ((b :: r).take w)).getD "").toList ++ lossyFrom (w - 1) r
    | .broken w => '\uFFFD' :: lossyFrom (w - 1) r
    | .cut => ['\uFFFD']

/-- The text of some bytes, ill-formed pieces shown as U+FFFD. -/
def lossy (bytes : List UInt8) : String :=
  (text? bytes).getD (String.ofList (lossyFrom 0 bytes))

end Relabel.Utf8
