import Relabel.Yaml.Problem
import Relabel.Yaml.Character
import Relabel.Text.Utf8

/-!
# Tokens of the data language

The pieces that a file is made of, and places in a file.
-/

namespace Relabel.Yaml

/-- How a scalar is written. -/
inductive Style where
  | plain
  | single
  | double
  | literal
  | folded
  deriving DecidableEq, Repr

/-- A piece of a file. -/
inductive Token where
  | version (major minor : Nat)
  | tagDirective (handle expansion : List UInt8)
  | documentStart
  | documentEnd
  | blockSequenceStart
  | blockMappingStart
  | blockEnd
  | flowSequenceStart
  | flowSequenceEnd
  | flowMappingStart
  | flowMappingEnd
  | blockEntry
  | flowEntry
  | key
  | value
  | alias (name : List Char)
  | anchor (name : List Char)
  | tag (handle rest : List UInt8)
  | scalar (text : List Char) (style : Style)
  deriving DecidableEq, Repr

/-- A place in a file, everything counted from zero. -/
structure Place where
  index : Nat
  line : Nat
  column : Nat
  deriving DecidableEq, Repr

namespace Place

def start : Place := ⟨0, 0, 0⟩

/-- The place behind a character. -/
def after (p : Place) (c : Char) : Place :=
  if isBreak c then ⟨p.index + 1, p.line + 1, 0⟩ else ⟨p.index + 1, p.line, p.column + 1⟩

/-- The place behind some characters. -/
def afterAll (p : Place) (s : List Char) : Place := s.foldl after p

end Place

/-- What has been read, with the text that comes after it and its place. -/
structure Scanned (α : Type) where
  value : α
  rest : List Char
  place : Place

namespace Scanned

def map {α β : Type} (f : α → β) (r : Scanned α) : Scanned β := ⟨f r.value, r.rest, r.place⟩

/-- Puts a text before the one that has been read. -/
def before (r : Scanned (List Char)) (s : List Char) : Scanned (List Char) :=
  ⟨s ++ r.value, r.rest, r.place⟩

end Scanned

/-- Reads as many characters as satisfy `p`. -/
def scanWhile (p : Char → Bool) (s : List Char) (place : Place) : Scanned (List Char) :=
  let t := s.takeWhile p
  ⟨t, s.dropWhile p, place.afterAll t⟩

/-- The mark of a document's start or end comes: three hyphens or dots that are a word. -/
def isDocumentMark : List Char → Bool
  | '-' :: '-' :: '-' :: s => endsWord s
  | '.' :: '.' :: '.' :: s => endsWord s
  | _ => false

end Relabel.Yaml
