import Relabel.Disk.Basic

/-!
# Walks

Where a path leads. A walk goes from directory to directory along the steps of the path and along
the links it meets, of which it follows at most forty.

* `Place`: where a walk ends; its last step may lead to nothing yet.
* `Disk.place`: the walk along a path.
* `Disk.find`: the node at the end of a path.
-/

namespace Relabel.Disk

/-- Where a walk ends. -/
inductive Place where
  /-- A directory that the last step reached without a name: the root, a dot or two. -/
  | folder (i : Nat)
  /-- The entry `name` of a directory, which may be missing; `slash` says that the path asks for
  a directory. -/
  | entry (dir : Nat) (name : FileName) (i : Option Nat) (slash : Bool)
  deriving DecidableEq, Repr

/-- The greatest length of a name. -/
def maxName : Nat := 255

/-- The greatest length of a path. -/
def maxPath : Nat := 4095

/-- How many links a walk may follow. -/
def maxLinks : Nat := 40

/-- Walks on from a directory. `jump` walks on behind a link, and `follow` says whether a link at
the end is followed; one that a slash comes after is followed in any case. -/
def walkWith (d : Disk) (jump : Nat → List FileName → Bool → Except Fault Place) (follow : Bool) :
    Nat → List FileName → Bool → Except Fault Place
  | dir, [], _ => .ok (.folder dir)
  | dir, n :: rest, slash =>
    match d.node? dir with
    | some (.folder up es) =>
      if n = .dot then walkWith d jump follow dir rest slash
      else if n = .dotDot then walkWith d jump follow up rest slash
      else if maxName < n.length then .error .nameTooLong
      else
        match es.get? n with
        | none => if rest.isEmpty then .ok (.entry dir n none slash) else .error .notFound
        | some i =>
          match d.node? i with
          | some (.link target) =>
            if rest.isEmpty && !(follow || slash) then .ok (.entry dir n (some i) slash)
            else jump (if target.isAbsolute then root else dir) (target.steps ++ rest)
              (if rest.isEmpty then slash || target.endsInSlash else slash)
          | some (.folder ..) =>
            if rest.isEmpty then .ok (.entry dir n (some i) slash)
            else walkWith d jump follow i rest slash
          | _ =>
            if rest.isEmpty then .ok (.entry dir n (some i) slash) else .error .notFolder
    | _ => .error .notFolder

/-- Walks on from a directory along the given steps, following so many links at most. -/
def walk (d : Disk) (follow : Bool) : (links : Nat) → Nat → List FileName → Bool →
    Except Fault Place
  | 0 => d.walkWith (fun _ _ _ => .error .tooManyLinks) follow
  | k + 1 => d.walkWith (d.walk follow k) follow

/-- Refuses what can be no path. -/
def checkPath (p : Path) : Except Fault Unit :=
  if p.bytes.contains 0 then .error .nulInPath
  else if p.isEmpty then .error .notFound
  else if maxPath < p.bytes.length then .error .nameTooLong
  else .ok ()

/-- Where a path leads. -/
def place (d : Disk) (follow : Bool) (p : Path) (slash : Bool) : Except Fault Place := do
  checkPath p
  d.walk follow maxLinks (if p.isAbsolute then root else d.current) p.steps slash

/-- The node at the end of a path; `follow` says whether a link there is followed. -/
def find (d : Disk) (follow : Bool) (p : Path) : Except Fault Nat := do
  match ← d.place follow p p.endsInSlash with
  | .folder i => .ok i
  | .entry _ _ none _ => .error .notFound
  | .entry _ _ (some i) slash =>
    if slash && !d.isFolder i then .error .notFolder else .ok i

/-- The path leads to something. -/
def pathExists (d : Disk) (p : Path) : Bool := (d.find true p).toBool

/-- The path leads to a directory. -/
def isFolderAt (d : Disk) (p : Path) : Bool :=
  match d.find true p with
  | .ok i => d.isFolder i
  | .error _ => false

/-- The path leads to a file. -/
def isFileAt (d : Disk) (p : Path) : Bool :=
  match d.find true p with
  | .ok i =>
    match d.node? i with
    | some (.file _) => true
    | _ => false
  | .error _ => false

/-- Both paths end in an entry, and in the same node. -/
def sameNode (d : Disk) (p q : Path) : Bool :=
  match d.find false p, d.find false q with
  | .ok i, .ok j => i == j
  | _, _ => false

/-! ## The current directory -/

/-- The names on the way from the root to a directory; `fuel` bounds the way. -/
def wayTo (d : Disk) : (fuel : Nat) → Nat → Option (List FileName)
  | 0, _ => none
  | fuel + 1, i =>
    if i = root then some [] else
      match d.node? i with
      | some (.folder up _) => do
        let (name, _) ← (d.entries up).find? (·.2 = i)
        let way ← d.wayTo fuel up
        pure (way ++ [name])
      | _ => none

/-- The path of the current directory, unless it has been removed. -/
def currentPath (d : Disk) : Except Fault Path :=
  match d.wayTo d.nodes.length d.current with
  | some way => .ok (Path.ofSegments true way)
  | none => .error .notFound

end Relabel.Disk
