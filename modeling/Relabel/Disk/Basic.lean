import Relabel.Disk.Path
import Relabel.Disk.Fault

/-!
# The file system

A file system is a list of nodes. A node is a file, a directory or a symbolic link, and its number
is its place in the list; node 0 is the root. Directories hold entries, which give names to nodes;
two entries may name one file.

* `Entries`: the names in a directory, with lemmas for `put` and `erase`.
* `Disk`: the nodes and the current directory.
-/

namespace Relabel

/-- The entries of a directory in the order in which they are listed. -/
abbrev Entries := List (FileName × Nat)

namespace Entries

/-- The node that a name stands for. -/
def get? (n : FileName) : Entries → Option Nat
  | [] => none
  | (m, i) :: es => if m = n then some i else get? n es

/-- Lets a name stand for a node; a new name comes last. -/
def put (n : FileName) (i : Nat) : Entries → Entries
  | [] => [(n, i)]
  | (m, j) :: es => if m = n then (n, i) :: es else (m, j) :: put n i es

/-- Removes a name. -/
def erase (n : FileName) (es : Entries) : Entries := es.filter (·.1 ≠ n)

theorem get?_put (n m : FileName) (i : Nat) (es : Entries) :
    (es.put n i).get? m = if n = m then some i else es.get? m := by
  induction es with
  | nil => simp [put, get?]
  | cons e es ih =>
    obtain ⟨k, j⟩ := e
    by_cases h : k = n
    · subst h; by_cases h' : k = m <;> simp [put, get?, h']
    · by_cases h' : k = m
      · subst h'; simp [put, get?, h, Ne.symm h]
      · simp [put, get?, h, h', ih]

theorem get?_erase (n m : FileName) (es : Entries) :
    (es.erase n).get? m = if n = m then none else es.get? m := by
  induction es with
  | nil => simp [erase, get?]
  | cons e es ih =>
    obtain ⟨k, j⟩ := e
    by_cases h : k = n
    · subst h; by_cases h' : k = m <;> simp_all [erase, get?]
    · by_cases h' : k = m
      · subst h'; simp [erase, get?, h, Ne.symm h]
      · simpa [erase, get?, h, h'] using ih

end Entries

/-- What stands at one place of a file system. -/
inductive Node where
  /-- A file and its bytes. -/
  | file (content : List UInt8)
  /-- A directory, with the directory above it. -/
  | folder (up : Nat) (entries : Entries)
  /-- A symbolic link and the path it leads to. -/
  | link (target : Path)
  deriving DecidableEq, Repr

/-- The node is a directory. -/
def Node.isFolder : Node → Bool
  | folder .. => true
  | _ => false

/-- A file system as a program sees it. -/
structure Disk where
  nodes : List Node
  /-- The current directory. -/
  current : Nat
  deriving DecidableEq, Repr

namespace Disk

/-- The number of the root. -/
def root : Nat := 0

/-- A file system that holds an empty root only. -/
def blank : Disk := ⟨[.folder root []], root⟩

def node? (d : Disk) (i : Nat) : Option Node := d.nodes[i]?

/-- Changes a node. -/
def setNode (d : Disk) (i : Nat) (n : Node) : Disk := { d with nodes := d.nodes.set i n }

/-- The entries of a directory; none for what is no directory. -/
def entries (d : Disk) (i : Nat) : Entries :=
  match d.node? i with
  | some (.folder _ es) => es
  | _ => []

/-- The node is a directory. -/
def isFolder (d : Disk) (i : Nat) : Bool := (d.node? i).any Node.isFolder

/-- Changes the entries of a directory. -/
def setEntries (d : Disk) (i : Nat) (es : Entries) : Disk :=
  match d.node? i with
  | some (.folder up _) => d.setNode i (.folder up es)
  | _ => d

/-- Makes a node and gives it a name in a directory. -/
def create (d : Disk) (dir : Nat) (name : FileName) (n : Node) : Disk :=
  { d with nodes := d.nodes ++ [n] }.setEntries dir ((d.entries dir).put name d.nodes.length)

end Disk
end Relabel
