import Relabel.Yaml.Token.Scan

/-!
# Nodes

The tree that a file describes. A node is a scalar, a sequence or a mapping; an alias stands for a
node that an anchor has named.

* `Node`: a tree with the names of its anchors.
* `Document`: a tree, with the nodes that its aliases stand for.
* `Document.ofText`: the document of a file.
-/

namespace Relabel.Yaml

/-- The anchor and the tag of a node. -/
structure Props where
  anchor : Option (List Char)
  tag : Option (List UInt8)
  deriving DecidableEq, Repr

/-- No anchor and no tag. -/
def Props.none : Props := ⟨.none, .none⟩

/-- A tree. -/
inductive Node where
  | scalar (props : Props) (text : List Char) (style : Style)
  | sequence (props : Props) (items : List Node)
  | mapping (props : Props) (entries : List (Node × Node))
  | alias (name : List Char)

namespace Node

/-- The scalar that stands where nothing is written. -/
def empty (props : Props) : Node := .scalar props [] .plain

/-! ## Properties -/

/-- The handles that a file declares, with what they stand for. -/
abbrev Handles := List (List UInt8 × List UInt8)

/-- The handles that stand for themselves and for the tags of the language. -/
def standardHandles : Handles :=
  [(bang, bang), (bang ++ bang, asciiBytes "tag:yaml.org,2002:".toList)]

/-- The tag in full. -/
def fullTag (handles : Handles) (handle rest : List UInt8) : Except Problem (List UInt8) :=
  if handle.isEmpty then .ok rest else
    match handles.lookup handle with
    | some expansion => .ok (expansion ++ rest)
    | none => .error .unknownTagHandle

/-- Reads an anchor and a tag, each at most once, in either order. -/
def readProps (handles : Handles) : List Token → Except Problem (Props × List Token)
  | .anchor a :: .tag h r :: ts => do .ok (⟨some a, some (← fullTag handles h r)⟩, ts)
  | .anchor a :: ts => .ok (⟨some a, .none⟩, ts)
  | .tag h r :: .anchor a :: ts => do .ok (⟨some a, some (← fullTag handles h r)⟩, ts)
  | .tag h r :: ts => do .ok (⟨.none, some (← fullTag handles h r)⟩, ts)
  | ts => .ok (.none, ts)

/-- A scalar does not keep the tag that is a mark alone. -/
def scalarProps (p : Props) : Props := if p.tag = some bang then { p with tag := .none } else p

/-! ## Trees from tokens -/

/-- The token closes or goes on with the block mapping around it. -/
def endsMappingPart : List Token → Bool
  | .key :: _ | .value :: _ | .blockEnd :: _ => true
  | _ => false

/-- The token closes or goes on with the entry around it. -/
def endsEntry : List Token → Bool
  | .blockEntry :: _ | .key :: _ | .value :: _ | .blockEnd :: _ => true
  | _ => false

/-- The token closes or goes on with the block sequence around it. -/
def endsBlockEntry : List Token → Bool
  | .blockEntry :: _ | .blockEnd :: _ => true
  | _ => false

/-- The token closes or goes on with the braces around it. -/
def endsBraceValue : List Token → Bool
  | .flowEntry :: _ | .flowMappingEnd :: _ => true
  | _ => false

/-- The same for a key. -/
def endsBraceKey : List Token → Bool
  | .value :: _ | .flowEntry :: _ | .flowMappingEnd :: _ => true
  | _ => false

/-- The token closes or goes on with the brackets around it. -/
def endsBracketValue : List Token → Bool
  | .flowEntry :: _ | .flowSequenceEnd :: _ => true
  | _ => false

/-- The same for a key. -/
def endsBracketKey : List Token → Bool
  | .value :: _ | .flowEntry :: _ | .flowSequenceEnd :: _ => true
  | _ => false

mutual

/-- Reads a node. `block` admits blocks of lines, and `bare` a sequence without indentation. -/
def read (handles : Handles) :
    (fuel : Nat) → (block bare : Bool) → List Token → Except Problem (Node × List Token)
  | 0, _, _, _ => .error .tooLong
  | fuel + 1, block, bare, ts =>
    match ts with
    | .alias name :: ts => .ok (.alias name, ts)
    | _ => do
      let (props, ts) ← readProps handles ts
      match ts with
      | .scalar text style :: ts => .ok (.scalar (scalarProps props) text style, ts)
      | .flowSequenceStart :: ts => do
        let (items, ts) ← readBrackets handles fuel true ts
        .ok (.sequence props items, ts)
      | .flowMappingStart :: ts => do
        let (entries, ts) ← readBraces handles fuel true ts
        .ok (.mapping props entries, ts)
      | _ =>
        if bare && ts.head? == some .blockEntry then do
          let (items, ts) ← readBareEntries handles fuel ts
          .ok (.sequence props items, ts)
        else if block && ts.head? == some .blockSequenceStart then do
          let (items, ts) ← readEntries handles fuel ts.tail
          .ok (.sequence props items, ts)
        else if block && ts.head? == some .blockMappingStart then do
          let (entries, ts) ← readMapping handles fuel ts.tail
          .ok (.mapping props entries, ts)
        else if props.anchor.isSome || props.tag.isSome then .ok (.empty props, ts)
        else .error (.missing "node content")

/-- Reads the entries of a block sequence. -/
def readEntries (handles : Handles) :
    (fuel : Nat) → List Token → Except Problem (List Node × List Token)
  | 0, _ => .error .tooLong
  | fuel + 1, ts =>
    match ts with
    | .blockEntry :: ts => do
      let (item, ts) ←
        if endsBlockEntry ts then .ok (.empty .none, ts) else read handles fuel true false ts
      let (items, ts) ← readEntries handles fuel ts
      .ok (item :: items, ts)
    | .blockEnd :: ts => .ok ([], ts)
    | _ => .error (.missing "'-' indicator")

/-- Reads the entries of a sequence without indentation. -/
def readBareEntries (handles : Handles) :
    (fuel : Nat) → List Token → Except Problem (List Node × List Token)
  | 0, _ => .error .tooLong
  | fuel + 1, ts =>
    match ts with
    | .blockEntry :: ts => do
      let (item, ts) ←
        if endsEntry ts then .ok (.empty .none, ts) else read handles fuel true false ts
      let (items, ts) ← readBareEntries handles fuel ts
      .ok (item :: items, ts)
    | _ => .ok ([], ts)

/-- Reads the entries of a block mapping. -/
def readMapping (handles : Handles) :
    (fuel : Nat) → List Token → Except Problem (List (Node × Node) × List Token)
  | 0, _ => .error .tooLong
  | fuel + 1, ts =>
    match ts with
    | .key :: ts => do
      let (key, ts) ←
        if endsMappingPart ts then .ok (.empty .none, ts) else read handles fuel true true ts
      let (value, ts) ←
        match ts with
        | .value :: ts =>
          if endsMappingPart ts then .ok (.empty .none, ts) else read handles fuel true true ts
        | _ => .ok (.empty .none, ts)
      let (entries, ts) ← readMapping handles fuel ts
      .ok ((key, value) :: entries, ts)
    | .blockEnd :: ts => .ok ([], ts)
    | _ => .error (.missing "key")

/-- Reads what is within brackets; each item but the first comes after a comma. An item may be a
single pair of key and value. -/
def readBrackets (handles : Handles) :
    (fuel : Nat) → (first : Bool) → List Token → Except Problem (List Node × List Token)
  | 0, _, _ => .error .tooLong
  | fuel + 1, first, ts =>
    match ts with
    | .flowSequenceEnd :: ts => .ok ([], ts)
    | _ => do
      let ts ←
        match first, ts with
        | true, _ => .ok ts
        | false, .flowEntry :: ts => .ok ts
        | false, _ => .error (.missing "',' or ']'")
      match ts with
      | .flowSequenceEnd :: ts => .ok ([], ts)
      | .key :: ts => do
        let (pair, ts) ← readPair handles fuel ts
        let (items, ts) ← readBrackets handles fuel false ts
        .ok (pair :: items, ts)
      | _ => do
        let (item, ts) ← read handles fuel false false ts
        let (items, ts) ← readBrackets handles fuel false ts
        .ok (item :: items, ts)

/-- Reads a single pair within brackets, from behind its mark. Where no key is written, the token
that comes in its place counts for nothing. -/
def readPair (handles : Handles) :
    (fuel : Nat) → List Token → Except Problem (Node × List Token)
  | 0, _ => .error .tooLong
  | fuel + 1, ts => do
    let (key, ts) ←
      if endsBracketKey ts then .ok (.empty .none, ts.tail) else read handles fuel false false ts
    let (value, ts) ←
      match ts with
      | .value :: ts =>
        if endsBracketValue ts then .ok (.empty .none, ts) else read handles fuel false false ts
      | _ => .ok (.empty .none, ts)
    .ok (.mapping .none [(key, value)], ts)

/-- Reads what is within braces; each entry but the first comes after a comma. -/
def readBraces (handles : Handles) :
    (fuel : Nat) → (first : Bool) → List Token → Except Problem (List (Node × Node) × List Token)
  | 0, _, _ => .error .tooLong
  | fuel + 1, first, ts =>
    match ts with
    | .flowMappingEnd :: ts => .ok ([], ts)
    | _ => do
      let ts ←
        match first, ts with
        | true, _ => .ok ts
        | false, .flowEntry :: ts => .ok ts
        | false, _ => .error (.missing "',' or '\x7d'")
      match ts with
      | .flowMappingEnd :: ts => .ok ([], ts)
      | .key :: ts => do
        let (key, ts) ←
          if endsBraceKey ts then .ok (.empty .none, ts) else read handles fuel false false ts
        let (value, ts) ←
          match ts with
          | .value :: ts =>
            if endsBraceValue ts then .ok (.empty .none, ts) else read handles fuel false false ts
          | _ => .ok (.empty .none, ts)
        let (entries, ts) ← readBraces handles fuel false ts
        .ok ((key, value) :: entries, ts)
      | _ => do
        let (key, ts) ← read handles fuel false false ts
        let (entries, ts) ← readBraces handles fuel false ts
        .ok ((key, .empty .none) :: entries, ts)

end

/-! ## Anchors -/

/-- What the anchors before some place name: names with their numbers. -/
abbrev Numbers := List (List Char × Nat)

/-- Names a node. The number is how many names there were, so that a name that is given anew may
share its number with the next new one. -/
def nameAnew (names : Numbers) (name : List Char) : Numbers × Nat :=
  let n := names.length
  (if names.any (·.1 == name) then names.map fun (m, i) => if m == name then (m, n) else (m, i)
    else names ++ [(name, n)], n)

end Node

/-- A tree whose aliases are numbers of nodes. -/
inductive Tree where
  | scalar (tag : Option (List UInt8)) (text : List Char) (style : Style)
  | sequence (tag : Option (List UInt8)) (items : List Tree)
  | mapping (tag : Option (List UInt8)) (entries : List (Tree × Tree))
  | alias (number : Nat)

/-- A tree, and the nodes that have numbers, in order; of two with one number the later counts. -/
structure Document where
  root : Tree
  named : List (Nat × Tree)

namespace Node

/-- A tree with numbers for aliases, the names after it, and the numbered nodes in it in order. -/
structure Numbered (α : Type) where
  tree : α
  names : Numbers
  named : List (Nat × Tree)

/-- Gives a node its number. -/
def withNumber (number : Option Nat) (r : Numbered Tree) : Numbered Tree :=
  match number with
  | some n => { r with named := (n, r.tree) :: r.named }
  | none => r

/-- The names once a node has begun that may have an anchor, and its number. -/
def begin (names : Numbers) : Option (List Char) → Numbers × Option Nat
  | some a => ((nameAnew names a).1, some (nameAnew names a).2)
  | none => (names, none)

mutual

/-- Puts numbers for the aliases of a tree. -/
def number (names : Numbers) : Node → Except Problem (Numbered Tree)
  | .scalar props text style =>
    let (names, n) := begin names props.anchor
    .ok (withNumber n ⟨.scalar props.tag text style, names, []⟩)
  | .sequence props items => do
    let (names, n) := begin names props.anchor
    let r ← numberItems names items
    .ok (withNumber n ⟨.sequence props.tag r.tree, r.names, r.named⟩)
  | .mapping props entries => do
    let (names, n) := begin names props.anchor
    let r ← numberEntries names entries
    .ok (withNumber n ⟨.mapping props.tag r.tree, r.names, r.named⟩)
  | .alias name =>
    match names.lookup name with
    | some n => .ok ⟨.alias n, names, []⟩
    | none => .error .unknownAnchor

/-- The same for the items of a sequence. -/
def numberItems (names : Numbers) : List Node → Except Problem (Numbered (List Tree))
  | [] => .ok ⟨[], names, []⟩
  | x :: xs => do
    let r ← number names x
    let rs ← numberItems r.names xs
    .ok ⟨r.tree :: rs.tree, rs.names, r.named ++ rs.named⟩

/-- The same for the entries of a mapping. -/
def numberEntries (names : Numbers) :
    List (Node × Node) → Except Problem (Numbered (List (Tree × Tree)))
  | [] => .ok ⟨[], names, []⟩
  | (k, v) :: es => do
    let rk ← number names k
    let rv ← number rk.names v
    let rs ← numberEntries rv.names es
    .ok ⟨(rk.tree, rv.tree) :: rs.tree, rs.names, rk.named ++ rv.named ++ rs.named⟩

end

end Node

/-! ## Documents -/

namespace Document

/-- The declarations before a document. -/
structure Declarations where
  version : Bool
  handles : Node.Handles

/-- Reads the declarations before a document. -/
def declarations (d : Declarations) : List Token → Except Problem (Declarations × List Token)
  | .version major minor :: ts =>
    if d.version then .error .repeatedDirective
    else if major = 1 ∧ (minor = 1 ∨ minor = 2) then declarations { d with version := true } ts
    else .error .wrongVersion
  | .tagDirective handle expansion :: ts =>
    if (d.handles.lookup handle).isSome then .error .repeatedDirective
    else declarations { d with handles := d.handles ++ [(handle, expansion)] } ts
  | ts => .ok (d, ts)

/-- A document without content ends here. -/
def endsDocument : List Token → Bool
  | [] | .version .. :: _ | .tagDirective .. :: _ | .documentStart :: _ | .documentEnd :: _ => true
  | _ => false

/-- Sees that nothing comes but marks of a document's end. -/
def closes : List Token → Bool
  | [] => true
  | .documentEnd :: ts => closes ts
  | _ => false

/-- A bound for the depth of the calls that read a node. -/
def fuelFor (ts : List Token) : Nat := 3 * ts.length + 3

/-- Reads the one node of a file. Declarations are for the documents whose start is marked. -/
def readNode (ts : List Token) : Except Problem (Node × List Token) := do
  let (d, rest) ← declarations ⟨false, []⟩ ts
  let handles := d.handles ++ Node.standardHandles
  match rest with
  | .documentStart :: rest =>
    if endsDocument rest then .ok (.empty .none, rest)
    else Node.read handles (fuelFor rest) true false rest
  | _ =>
    if rest.length < ts.length then .error (.missing "<document start>")
    else Node.read handles (fuelFor ts) true false ts

/-- The document of some tokens, if there is one; a file must not hold two. -/
def ofTokens? (ts : List Token) : Except Problem (Option Document) := do
  match ts with
  | [] => .ok none
  | _ =>
    let (node, rest) ← readNode ts
    if closes rest then
      let r ← node.number []
      .ok (some ⟨r.tree, r.named⟩)
    else .error .severalDocuments

/-- The document of a file, if there is one. -/
def ofText? (text : String) : Except Problem (Option Document) := do
  match readable? text with
  | none => .error .control
  | some s => ofTokens? (← tokens s)

/-- The node that an alias stands for; other nodes stand for themselves. -/
def target (d : Document) : Tree → Tree
  | .alias n =>
    match d.named.reverse.lookup n with
    | some t => t
    | none => .alias n
  | t => t

end Document
end Relabel.Yaml
