import SwaggerDoc.Store.Equality
import SwaggerDoc.Yaml.Content
import SwaggerDoc.Yaml.Graph

/-!
Graphs of nodes as values in a store.

Each node has one value, so nodes that are met twice give values that are shared. Collections are
placed empty and filled in the order in which they were placed, which lets a value contain itself.
Before a mapping is filled, the entries of the mappings that it merges are put in front of its own.
Graphs are followed to any depth; how far an interpreter is sure to follow them is `sureDepth`.
-/

namespace SwaggerDoc.Yaml

/-- A graph of which some nodes have values. -/
structure Loading where
  store : Store
  nodes : Array Node
  /-- The values of the nodes met so far, by number. -/
  values : List (Nat × Value)
  /-- The places of the collections that are still empty, with the numbers of their nodes. -/
  waiting : List (Place × Nat)

namespace Loading

/-- A step of giving values to nodes. -/
abbrev Load := StateT Loading (Except Problem)

/-- The document describes no value. -/
def meaningless {α : Type} : Load α := throw .malformed

/-- The node with a number. -/
def nodeAt (id : Nat) : Load Node := do
  match (← get).nodes[id]? with
  | some n => return n
  | none => meaningless

/-- Replaces the node with a number. -/
def setNode (id : Nat) (n : Node) : Load Unit :=
  modify fun l => { l with nodes := l.nodes.setIfInBounds id n }

/-! ## Merging -/

/-- The entries of a mapping; nothing else can be merged. -/
def entriesOf (id : Nat) : Load (List (Nat × Nat)) := do
  match ← nodeAt id with
  | .mapping _ entries => return entries
  | _ => meaningless

/-- Replaces the entries of a mapping. -/
def setEntries (id : Nat) (entries : List (Nat × Nat)) : Load Unit := do
  setNode id (.mapping (← nodeAt id).tag entries)

/-- A key that stands for the default value is a mere text. -/
def plainKey (entry : Nat × Nat) : Load Unit := do
  let key ← nodeAt entry.1
  if key.tag == .default then setNode entry.1 (key.withTag .string)

/-- The number of entries in front of the first that asks for merging, if one does. -/
def firstMerge? (nodes : Array Node) (entries : List (Nat × Nat)) : Option Nat :=
  entries.findIdx? fun entry => (nodes[entry.1]?.map Node.tag) == some .merge

/-- Puts the entries of merged mappings in front of the entries of a mapping, from an entry onward.
An entry that asks for merging is gone before it is followed, so the first argument, which bounds
the number of such entries, bounds the depth. -/
def mergeFrom : Nat → (id first : Nat) → (merged : List (Nat × Nat)) → Load Unit
  | 0, _, _, _ => meaningless
  | n + 1, id, first, merged => do
    let entries ← entriesOf id
    match firstMerge? (← get).nodes (entries.drop first) with
    | none => do
      entries.forM plainKey
      if !merged.isEmpty then setEntries id (merged ++ entries)
    | some more => do
      let position := first + more
      setEntries id (entries.eraseIdx position)
      let source := ((entries[position]?).map Prod.snd).getD id
      match ← nodeAt source with
      | .mapping .. => do
        mergeFrom n source 0 []
        mergeFrom n id position (merged ++ (← entriesOf source))
      | .sequence _ items => do
        let parts ← items.mapM fun item => do
          let _ ← entriesOf item
          mergeFrom n item 0 []
          entriesOf item
        mergeFrom n id position (merged ++ parts.reverse.flatten)
      | .scalar .. => meaningless

/-- The entries of a mapping with those that it merges. -/
def mergedEntries (id : Nat) : Load (List (Nat × Nat)) := do
  let l ← get
  let asking := l.nodes.toList.map fun
    | .mapping _ entries => entries.length
    | _ => 0
  mergeFrom (asking.foldl (· + ·) 1) id 0 []
  entriesOf id

/-! ## Values -/

/-- The characters of a scalar. A mapping has those of its default value. The first argument bounds
the depth. -/
def charactersWithin : Nat → Nat → Load Text
  | 0, _ => throw (.fault .tooDeep)
  | depth + 1, id => do
    match ← nodeAt id with
    | .scalar _ t => return t
    | .sequence .. => meaningless
    | .mapping _ entries => do
      let nodes := (← get).nodes
      match entries.find? fun entry => (nodes[entry.1]?.map Node.tag) == some .default with
      | some entry => charactersWithin depth entry.2
      | none => meaningless

/-- The characters of a scalar. -/
def characters (id : Nat) : Load Text := do charactersWithin ((← get).nodes.size + 1) id

/-- What an empty collection with a tag is. -/
def emptyCell? : NodeTag → Option Cell
  | .sequence | .orderedMap | .pairs => some (.list [])
  | .mapping => some (.map [])
  | .set => some (.set [])
  | _ => none

/-- Whether scalars can have a tag. Merge keys, default keys and unknown tags describe no value. -/
def isScalarTag : NodeTag → Bool
  | .null | .bool | .int | .float | .string | .binary | .timestamp => true
  | _ => false

/-- The value of a node. A collection is left empty and waits to be filled. -/
def valueOf (id : Nat) : Load Value := do
  let l ← get
  match l.values.lookup id with
  | some v => return v
  | none => do
    let node ← nodeAt id
    match emptyCell? node.tag with
    | some cell => do
      let (v, store) := l.store.alloc cell
      set { l with
        store
        values := (id, v) :: l.values
        waiting := l.waiting ++ [(l.store.size, id)] }
      return v
    | none => do
      if !isScalarTag node.tag then meaningless
      let t ← characters id
      match node, node.tag with
      | .mapping .., .timestamp => throw (.fault .wrongKind)
      | _, tag => do
        let (v, store) ← Content.value l.store tag t
        set { l with store, values := (id, v) :: l.values }
        return v

/-- The entries of a mapping as values. A key cannot be a list, a mapping or a set. -/
def keyedValues (id : Nat) : Load (List (Value × Value)) := do
  (← mergedEntries id).mapM fun (key, value) => do
    let k ← valueOf key
    if !(← get).store.hashable k then meaningless
    return (k, ← valueOf value)

/-- The items of a sequence. -/
def itemsOf (id : Nat) : Load (List Nat) := do
  match ← nodeAt id with
  | .sequence _ items => return items
  | _ => meaningless

/-- A pair from a mapping with one entry. -/
def pairOf (id : Nat) : Load Value := do
  match ← nodeAt id with
  | .mapping _ [(key, value)] => do
    let k ← valueOf key
    let v ← valueOf value
    modifyGet fun l =>
      let (pair, store) := l.store.alloc (.tuple [k, v])
      (pair, { l with store })
  | _ => meaningless

/-- What the collection of a node holds. -/
def contentOf (id : Nat) : Load Cell := do
  match (← nodeAt id).tag with
  | .sequence => return .list (← (← itemsOf id).mapM valueOf)
  | .orderedMap | .pairs => return .list (← (← itemsOf id).mapM pairOf)
  | .set => do
    let entries ← keyedValues id
    return .set (((← get).store.collect entries).map Prod.fst)
  | _ => do
    let entries ← keyedValues id
    return .map ((← get).store.collect entries)

/-- Fills the collections that wait, in order; new ones join at the end. The first argument bounds
their number. -/
def fill : Nat → Load Unit
  | 0 => return ()
  | n + 1 => do
    match (← get).waiting with
    | [] => return ()
    | (place, id) :: rest => do
      modify fun l => { l with waiting := rest }
      let cell ← contentOf id
      modify fun l => { l with store := l.store.write place (l.store.settled place cell) }
      fill n

/-- The value of the root. -/
def root (id : Nat) : Load Value := do
  let v ← valueOf id
  fill ((← get).nodes.size + 1)
  return v

end Loading

/-- The value that a text describes, placed in a store. A text without a document describes
nothing. -/
def load (s : Store) (t : Text) : Except Problem (Value × Store) := do
  let g ← Graph.ofText t
  match g.root with
  | none => return (.null, s)
  | some id => do
    let (v, l) ← (Loading.root id).run ⟨s, g.nodes, [], []⟩
    return (v, l.store)

end SwaggerDoc.Yaml
