import SwaggerDoc.Yaml.Token

/-!
Tokens as graphs of nodes.

A document is a graph and not a tree, because an alias leads to a node that was anchored before,
even to one that contains the alias. Nodes are therefore numbered, and what contains a node refers
to its number. A stream holds one document at most.
-/

namespace SwaggerDoc.Yaml

/-- A node. What it contains is given by number. -/
inductive Node where
  | scalar (tag : NodeTag) (t : Text)
  | sequence (tag : NodeTag) (items : List Nat)
  | mapping (tag : NodeTag) (entries : List (Nat × Nat))
  deriving DecidableEq, Repr

/-- The tag of a node. -/
def Node.tag : Node → NodeTag
  | .scalar tag _ | .sequence tag _ | .mapping tag _ => tag

/-- A node with another tag. -/
def Node.withTag (tag : NodeTag) : Node → Node
  | .scalar _ t => .scalar tag t
  | .sequence _ items => .sequence tag items
  | .mapping _ entries => .mapping tag entries

/-- The nodes of a document and the number of its root; an empty stream has none. -/
structure Graph where
  nodes : Array Node
  root : Option Nat

namespace Graph

/-- A graph that is being built, with the tokens that are left. -/
structure Building where
  rest : Tokens
  nodes : Array Node
  /-- The numbers of the anchored nodes. -/
  anchors : List (Text × Nat)
  /-- What tag handles stand for. -/
  handles : List (Text × Text)

/-- A step of building a graph. -/
abbrev Build := StateT Building (Except Problem)

/-- Nothing else fits here. -/
def misplaced {α : Type} : Build α := throw .malformed

/-- The next token, if there is one. A problem counts when what is behind it is asked for. -/
def peek : Build (Option Token) := do
  match (← get).rest with
  | ⟨t :: _, _⟩ => return some t
  | ⟨[], none⟩ => return none
  | ⟨[], some p⟩ => throw p

/-- Passes a token. -/
def pass : Build Unit :=
  modify fun b => { b with rest := { b.rest with tokens := b.rest.tokens.drop 1 } }

/-- Passes a token if it is the given one. -/
def passed (t : Token) : Build Bool := do
  if (← peek) == some t then do
    pass
    return true
  else return false

/-- Passes the given token, which has to be there. -/
def require (t : Token) : Build Unit := do
  if !(← passed t) then misplaced

/-- Whether the next token is one of the given ones. -/
def atAny (tokens : List Token) : Build Bool := do
  return (← peek).any fun t => tokens.contains t

/-- Adds a node, under the name of its anchor if it has one. -/
def addNode (anchor : Option Text) (n : Node) : Build Nat := do
  let b ← get
  let id := b.nodes.size
  let anchors := match anchor with
    | none => b.anchors
    | some name => (name, id) :: b.anchors
  set { b with nodes := b.nodes.push n, anchors }
  return id

/-- Puts a node in the place of one that was added before its parts. -/
def complete (id : Nat) (n : Node) : Build Unit :=
  modify fun b => { b with nodes := b.nodes.setIfInBounds id n }

/-- The node for something left out. -/
def absent : Build Nat := addNode none (.scalar .null [])

/-! ## Properties of nodes -/

/-- The anchor and the tag in front of a node. A tag that is a mere mark says that the node has the
type that it would have without quotes. -/
structure Properties where
  anchor : Option Text
  tag : Option Text

/-- A tag in full. -/
def fullTag (t : TagName) : Build Text := do
  match t.handle with
  | none => return t.rest
  | some handle =>
    match (← get).handles.lookup handle with
    | some path => return path ++ t.rest
    | none => misplaced

/-- An anchor, if one stands here. -/
def anchor? : Build (Option Text) := do
  match ← peek with
  | some (.anchor name) => do
    pass
    return some name
  | _ => return none

/-- A tag, if one stands here. -/
def tag? : Build (Option TagName) := do
  match ← peek with
  | some (.tag t) => do
    pass
    return some t
  | _ => return none

/-- The properties of a node, in either order. -/
def properties : Build Properties := do
  let before ← anchor?
  let tag ← tag?
  let anchor ← match before with
    | some name => pure (some name)
    | none => anchor?
  let tag ← match tag with
    | some t => some <$> fullTag t
    | none => pure none
  return ⟨anchor, tag⟩

/-- Whether the type of a node is left open. -/
def Properties.open (p : Properties) : Bool := p.tag.all (· == [33])

/-- The tag of a node whose type is as given if it is left open. -/
def Properties.tagOr (p : Properties) (free : NodeTag) : NodeTag :=
  match p.tag with
  | none => free
  | some t => if t = [33] then free else .ofFull t

/-- The type of a scalar without a tag and quotes. A line break at its end does not count. -/
def freeTag (t : Text) : NodeTag :=
  if t.length > 1 && t.getLast? == some 10 then Implicit.tag t.dropLast else Implicit.tag t

/-- The tag of a scalar. -/
def Properties.scalarTag (p : Properties) (plain : Bool) (t : Text) : NodeTag :=
  p.tagOr (if plain || p.tag.isSome then freeTag t else .string)

/-- Adds a collection before its parts. -/
def begin (anchor : Option Text) : Build Nat := addNode anchor (.sequence .sequence [])

/-- Whether an anchor names a node already. -/
def isBound (anchor : Option Text) : Build Bool := do
  let bound := (← get).anchors
  return anchor.any fun name => (bound.lookup name).isSome

/-! ## Nodes -/

/-- What ends an item or an entry of a block. -/
def blockStops : List Token := [.item, .key, .value, .blockEnd]

/-- Where a node stands: a block may begin there, and so may items without a block of their own. -/
structure Place where
  block : Bool
  bareItems : Bool

mutual

/-- A node. An anchor names one node only, which is noticed when the node begins. In all these
definitions the first argument bounds the number of tokens. -/
def node (place : Place) : Nat → Build Nat
  | 0 => misplaced
  | n + 1 => do
    if let some (.alias name) ← peek then
      pass
      match (← get).anchors.lookup name with
      | some id => return id
      | none => misplaced
    else
      let p ← properties
      let next ← peek
      if ← isBound p.anchor then misplaced
      let sequence (parts : Build (List Nat)) : Build Nat := do
        let id ← begin p.anchor
        complete id (.sequence (p.tagOr .sequence) (← parts))
        return id
      let mapping (parts : Build (List (Nat × Nat))) : Build Nat := do
        let id ← begin p.anchor
        complete id (.mapping (p.tagOr .mapping) (← parts))
        return id
      match next with
      | some (.scalar plain t) => do
        pass
        addNode p.anchor (.scalar (p.scalarTag plain t) t)
      | some .item =>
        if place.bareItems then sequence (bareItems n) else nothing p
      | some .flowSequence => do
        pass
        sequence (flowItems true n)
      | some .flowMapping => do
        pass
        mapping (flowEntries true n)
      | some .blockSequence =>
        if place.block then do
          pass
          sequence (blockItems n)
        else nothing p
      | some .blockMapping =>
        if place.block then do
          pass
          mapping (blockEntries n)
        else nothing p
      | _ => nothing p
where
  /-- A node of which there is nothing but its properties. -/
  nothing (p : Properties) : Build Nat :=
    if p.anchor.isSome || p.tag.isSome then
      addNode p.anchor (.scalar (p.tagOr .null) [])
    else misplaced

/-- A node, unless one of the given tokens stands in its place. -/
def nodeUnless (stops : List Token) (place : Place) : Nat → Build Nat
  | 0 => misplaced
  | n + 1 => do if ← atAny stops then absent else node place n

/-- Items in the column of the key in front of them. -/
def bareItems : Nat → Build (List Nat)
  | 0 => misplaced
  | n + 1 => do
    if ← passed .item then
      let item ← nodeUnless blockStops ⟨true, false⟩ n
      return item :: (← bareItems n)
    else return []

/-- The items of a block. -/
def blockItems : Nat → Build (List Nat)
  | 0 => misplaced
  | n + 1 => do
    if ← passed .item then
      let item ← nodeUnless [.item, .blockEnd] ⟨true, false⟩ n
      return item :: (← blockItems n)
    else
      require .blockEnd
      return []

/-- The entries of a block. -/
def blockEntries : Nat → Build (List (Nat × Nat))
  | 0 => misplaced
  | n + 1 => do
    if ← passed .key then
      let key ← nodeUnless [.key, .value, .blockEnd] ⟨true, true⟩ n
      let value ←
        if ← passed .value then nodeUnless [.key, .value, .blockEnd] ⟨true, true⟩ n else absent
      return (key, value) :: (← blockEntries n)
    else
      require .blockEnd
      return []

/-- The items between square brackets. A key makes a mapping of one entry. `first` says that no
comma is due. -/
def flowItems (first : Bool) : Nat → Build (List Nat)
  | 0 => misplaced
  | n + 1 => do
    if ← passed .flowSequenceEnd then return []
    if !first then require .comma
    if ← passed .key then
      let pair ← begin none
      let key ← nodeUnless [.value, .comma, .flowSequenceEnd] ⟨false, false⟩ n
      let value ←
        if ← passed .value then nodeUnless [.comma, .flowSequenceEnd] ⟨false, false⟩ n else absent
      complete pair (.mapping .mapping [(key, value)])
      return pair :: (← flowItems false n)
    else if ← passed .flowSequenceEnd then return []
    else
      let item ← node ⟨false, false⟩ n
      return item :: (← flowItems false n)

/-- The entries between braces. `first` says that no comma is due. -/
def flowEntries (first : Bool) : Nat → Build (List (Nat × Nat))
  | 0 => misplaced
  | n + 1 => do
    if ← passed .flowMappingEnd then return []
    if !first then require .comma
    if ← passed .key then
      let key ← nodeUnless [.value, .comma, .flowMappingEnd] ⟨false, false⟩ n
      let value ←
        if ← passed .value then nodeUnless [.comma, .flowMappingEnd] ⟨false, false⟩ n else absent
      return (key, value) :: (← flowEntries false n)
    else if ← passed .flowMappingEnd then return []
    else
      let key ← node ⟨false, false⟩ n
      let value ← absent
      return (key, value) :: (← flowEntries false n)

end

/-! ## Documents -/

/-- The handles that stand for something without a directive. -/
def standardHandles : List (Text × Text) := [([33], [33]), (text "!!", NodeTag.vocabularyPath)]

/-- The directives in front of a document. The first argument bounds their number. -/
def directives (versioned : Bool) (handles : List (Text × Text)) :
    Nat → Build (List (Text × Text))
  | 0 => misplaced
  | n + 1 => do
    match ← peek with
    | some (.directive d) => do
      pass
      match d with
      | .version major => if versioned || major != 1 then misplaced else directives true handles n
      | .handle name path =>
        if (handles.lookup name).isSome then misplaced
        else directives versioned ((name, path) :: handles) n
      | .other => directives versioned handles n
    | _ => return handles

/-- Passes all marks for the end of a document. The first argument bounds their number. -/
def passEnds : Nat → Build Unit
  | 0 => return ()
  | n + 1 => do if ← passed .documentEnd then passEnds n

/-- The root of the only document. A second one is refused when its directives have been gone
through. -/
def document (n : Nat) : Build (Option Nat) := do
  match ← peek with
  | none => return none
  | some t => do
    let explicit := match t with
      | .directive _ | .documentStart => true
      | _ => false
    let root ←
      if explicit then do
        let found ← directives false [] n
        modify fun b => { b with handles := found ++ standardHandles }
        require .documentStart
        match ← peek with
        | none | some (.directive _) | some .documentStart | some .documentEnd => absent
        | _ => node ⟨true, false⟩ n
      else node ⟨true, false⟩ n
    passEnds n
    match ← peek with
    | none => return some root
    | some _ => do
      let _ ← directives false [] n
      misplaced

/-- Each token opens a few steps at most. -/
def stepsPerToken : Nat := 4

/-- The graph of a sequence of tokens. -/
def ofTokens (t : Tokens) : Except Problem Graph := do
  let steps := stepsPerToken * (t.tokens.length + 2)
  let (root, b) ← (document steps).run ⟨t, #[], [], standardHandles⟩
  return ⟨b.nodes, root⟩

end Graph

/-- The characters that a text may consist of when it is read. -/
def isReadable (x : CodePoint) : Bool :=
  x == 9 || x == 10 || x == 13 || (0x20 ≤ x && x ≤ 0x7E) || x == 0x85
    || (0xA0 ≤ x && x ≤ 0xD7FF) || (0xE000 ≤ x && x ≤ 0xFFFD) || (0x10000 ≤ x && x < 0x110000)

/-- A text whose lines all end in line feeds. -/
def plainLines : Text → Text
  | [] => []
  | 13 :: 10 :: rest => 10 :: plainLines rest
  | 13 :: rest => 10 :: plainLines rest
  | x :: rest => x :: plainLines rest

/-- The graph that a text describes. -/
def Graph.ofText (t : Text) : Except Problem Graph :=
  if t.all isReadable then Graph.ofTokens (Tokens.of (plainLines t)) else .error .malformed

end SwaggerDoc.Yaml
