import Relabel.Text.Utf8

/-!
# Paths

A path is a text of bytes; slashes cut it into segments. Empty segments and single dots name
nothing, except a dot at the very front of a relative path.

* `Path.fileName?`: the last name of a path, if it ends in one.
* `Path.parent?`: the path without its last segment.
* `Path.withFileName`: another name in the same directory.
-/

namespace Relabel

/-- A name of a directory entry, or a segment of a path. -/
abbrev FileName := List UInt8

namespace FileName

/-- The name as text, ill-formed pieces shown as U+FFFD. -/
def display (n : FileName) : String := Utf8.lossy n

/-- The name `.`. -/
def dot : FileName := [0x2E]

/-- The name `..`. -/
def dotDot : FileName := [0x2E, 0x2E]

/-- Byte order. -/
def le : FileName → FileName → Bool
  | [], _ => true
  | _ :: _, [] => false
  | a :: r, b :: s => a < b || (a == b && le r s)

end FileName

/-- A path as it was written. -/
structure Path where
  bytes : List UInt8
  deriving DecidableEq, Repr

namespace Path

/-- The byte that cuts paths. -/
def slash : UInt8 := 0x2F

def ofString (s : String) : Path := ⟨Utf8.encode s⟩

/-- The path as text, ill-formed pieces shown as U+FFFD. -/
def display (p : Path) : String := Utf8.lossy p.bytes

instance : ToString Path := ⟨display⟩

def isEmpty (p : Path) : Bool := p.bytes.isEmpty

/-- The path starts at the root. -/
def isAbsolute (p : Path) : Bool := p.bytes.head? == some slash

/-- The path ends in a slash. -/
def endsInSlash (p : Path) : Bool := p.bytes.getLast? == some slash

/-- Cuts at every slash. -/
def cut : List UInt8 → List FileName
  | [] => [[]]
  | b :: r =>
    if b = slash then [] :: cut r
    else match cut r with
      | [] => [[b]]
      | n :: ns => (b :: n) :: ns

/-- Joins with slashes between. -/
def glue : List FileName → List UInt8
  | [] => []
  | [n] => n
  | n :: ns => n ++ slash :: glue ns

/-- The segments after the root, empty ones and dots included. -/
def segments (p : Path) : List FileName :=
  if p.isAbsolute then cut p.bytes.tail else cut p.bytes

/-- The path with the given segments. -/
def ofSegments (absolute : Bool) (ns : List FileName) : Path :=
  ⟨if absolute then slash :: glue ns else glue ns⟩

/-- The names that a walk along the path goes through. -/
def steps (p : Path) : List FileName := p.segments.filter (! ·.isEmpty)

/-- A segment that names nothing; `front` says that it opens a relative path. -/
def isIdle (front : Bool) (n : FileName) : Bool := n.isEmpty || (n == .dot && !front)

/-- Leaves out the last segments as long as they name nothing. -/
def dropIdle (absolute : Bool) (ns : List FileName) : List FileName :=
  match ns with
  | [] => []
  | n :: r =>
    match dropIdleTail r with
    | [] => if isIdle (!absolute) n then [] else [n]
    | r' => n :: r'
where
  dropIdleTail : List FileName → List FileName
    | [] => []
    | n :: r =>
      match dropIdleTail r with
      | [] => if isIdle false n then [] else [n]
      | r' => n :: r'

/-- The last name, unless the path ends at the root, in the directory itself or above it. -/
def fileName? (p : Path) : Option FileName :=
  let ns := dropIdle p.isAbsolute p.segments
  match ns.getLast? with
  | some n => if n = .dotDot ∨ n = .dot then none else some n
  | none => none

/-- The path without its last segment, if it has one. -/
def parent? (p : Path) : Option Path :=
  match dropIdle p.isAbsolute p.segments with
  | [] => none
  | ns => some (ofSegments p.isAbsolute (dropIdle p.isAbsolute ns.dropLast))

/-- The path of the entry `n` in the directory `p`; an absolute `n` stands for itself. -/
def join (p n : Path) : Path :=
  if n.isAbsolute then n
  else if p.isEmpty || p.endsInSlash then ⟨p.bytes ++ n.bytes⟩
  else ⟨p.bytes ++ slash :: n.bytes⟩

/-- The path with `n` in place of its last name. -/
def withFileName (p : Path) (n : FileName) : Path :=
  match p.fileName? with
  | some _ => (p.parent?.getD ⟨[]⟩).join ⟨n⟩
  | none => p.join ⟨n⟩

end Path
end Relabel
