import SwaggerDoc.Proofs.Yaml.Tokens

/-!
The graphs that the tokens of data are built into.

The nodes of data come in the order in which the data are written, each in front of its parts
(`Data.nodesFrom`). Nothing is anchored, so that no node is met twice (`ofTokens_tokens`).
-/

namespace SwaggerDoc

open Yaml

mutual

/-- The number of nodes of data. -/
def Data.count : Data → Nat
  | .atom _ => 1
  | .list items => itemCount items + 1
  | .map entries => entryCount entries + 1

/-- The number of nodes of items. -/
def itemCount : List Data → Nat
  | [] => 0
  | d :: rest => d.count + itemCount rest

/-- The number of nodes of entries, with those of the keys. -/
def entryCount : List (Text × Data) → Nat
  | [] => 0
  | (_, d) :: rest => d.count + 1 + entryCount rest

end

/-- The numbers of items, if the nodes of the first begin with a number. -/
def itemIds (start : Nat) : List Data → List Nat
  | [] => []
  | d :: rest => start :: itemIds (start + d.count) rest

/-- The numbers of keys and values, if the nodes of the first entry begin with a number. -/
def entryIds (start : Nat) : List (Text × Data) → List (Nat × Nat)
  | [] => []
  | (_, d) :: rest => (start, start + 1) :: entryIds (start + 1 + d.count) rest

mutual

/-- The nodes of data, numbered from a number on. -/
def Data.nodesFrom (start : Nat) : Data → List Node
  | .atom a => [.scalar a.tag a.characters]
  | .list items => .sequence .sequence (itemIds (start + 1) items) :: itemNodes (start + 1) items
  | .map entries =>
    .mapping .mapping (entryIds (start + 1) entries) :: entryNodes (start + 1) entries

/-- The nodes of items. -/
def itemNodes (start : Nat) : List Data → List Node
  | [] => []
  | d :: rest => d.nodesFrom start ++ itemNodes (start + d.count) rest

/-- The nodes of entries. -/
def entryNodes (start : Nat) : List (Text × Data) → List Node
  | [] => []
  | (key, d) :: rest =>
    .scalar .string key :: (d.nodesFrom (start + 1) ++ entryNodes (start + 1 + d.count) rest)

end

mutual

theorem Data.length_nodesFrom : (d : Data) → (start : Nat) → (d.nodesFrom start).length = d.count
  | .atom _, _ => rfl
  | .list items, start => by
    rw [Data.nodesFrom, List.length_cons, length_itemNodes items, Data.count]
  | .map entries, start => by
    rw [Data.nodesFrom, List.length_cons, length_entryNodes entries, Data.count]

theorem length_itemNodes : (items : List Data) → (start : Nat) →
    (itemNodes start items).length = itemCount items
  | [], _ => rfl
  | d :: rest, start => by
    rw [itemNodes, List.length_append, d.length_nodesFrom, length_itemNodes rest, itemCount]

theorem length_entryNodes : (entries : List (Text × Data)) → (start : Nat) →
    (entryNodes start entries).length = entryCount entries
  | [], _ => rfl
  | (key, d) :: rest, start => by
    rw [entryNodes, List.length_cons, List.length_append, d.length_nodesFrom,
      length_entryNodes rest, entryCount]
    omega

end

/-- A step that succeeds goes on with its result. -/
theorem bind_of_ok {σ ε α β : Type} {m : StateT σ (Except ε) α} {f : α → StateT σ (Except ε) β}
    {s t : σ} {a : α} (h : m s = .ok (a, t)) : (m >>= f) s = f a t := by
  simp only [bind, StateT.bind, h, Except.bind]

namespace Yaml.Graph

/-- A graph with some nodes, none of them anchored, and the tokens that are left. -/
def building (tokens : List Token) (nodes : List Node) : Building :=
  ⟨⟨tokens, none⟩, nodes.toArray, [], standardHandles⟩

section Steps

variable {α : Type} {ts more : List Token} {nodes inner : List Node} {t : Token}

theorem peek_cons : peek (building (t :: ts) nodes) = .ok (some t, building (t :: ts) nodes) := rfl

theorem peek_nil : peek (building [] nodes) = .ok (none, building [] nodes) := rfl

theorem pass_cons : pass (building (t :: ts) nodes) = .ok ((), building ts nodes) := rfl

theorem passed_cons : passed t (building (t :: ts) nodes) = .ok (true, building ts nodes) := by
  rw [passed, bind_of_ok peek_cons, if_pos (beq_self_eq_true (some t)), bind_of_ok pass_cons]
  rfl

theorem passed_other (other : ts.head? ≠ some t) :
    passed t (building ts nodes) = .ok (false, building ts nodes) := by
  cases ts with
  | nil => rfl
  | cons u ts =>
    have differs : (some u == some t) = false := beq_eq_false_iff_ne.mpr other
    rw [passed, bind_of_ok peek_cons, differs]
    rfl

theorem require_cons : require t (building (t :: ts) nodes) = .ok ((), building ts nodes) := by
  rw [require, bind_of_ok passed_cons]
  rfl

theorem atAny_cons {stops : List Token} (fits : stops.contains t = false) :
    atAny stops (building (t :: ts) nodes) = .ok (false, building (t :: ts) nodes) := by
  rw [atAny, bind_of_ok peek_cons]
  simp only [Option.any_some, fits]
  rfl

theorem pure_building (x : α) (b : Building) : (pure x : Build α) b = .ok (x, b) := rfl

theorem addNode_none (node : Node) :
    addNode none node (building ts nodes) = .ok (nodes.length, building ts (nodes ++ [node])) := by
  have added : addNode none node (building ts nodes) =
      .ok (nodes.toArray.size, ⟨⟨ts, none⟩, nodes.toArray.push node, [], standardHandles⟩) := rfl
  rw [added, List.size_toArray, List.push_toArray]
  rfl

theorem complete_append (x y : Node) :
    complete nodes.length y (building ts (nodes ++ x :: inner)) =
      .ok ((), building ts (nodes ++ y :: inner)) := by
  have placed : (nodes ++ x :: inner).toArray.setIfInBounds nodes.length y =
      (nodes ++ y :: inner).toArray := by
    rw [List.setIfInBounds_toArray, List.set_append_right _ _ (Nat.le_refl _), Nat.sub_self]
    rfl
  have completed : complete nodes.length y (building ts (nodes ++ x :: inner)) =
      .ok ((), { building ts (nodes ++ x :: inner) with
        nodes := (nodes ++ x :: inner).toArray.setIfInBounds nodes.length y }) := rfl
  rw [completed, placed]
  rfl

/-- No anchor and no tag. -/
def noProperties : Properties := ⟨none, none⟩

/-- No property of a node, no alias, and nothing in front of a document. -/
def IsPlainToken : Token → Prop
  | .alias _ | .anchor _ | .tag _ | .directive _ | .documentStart => False
  | _ => True

theorem properties_cons (plain : IsPlainToken t) :
    properties (building (t :: ts) nodes) = .ok (noProperties, building (t :: ts) nodes) := by
  cases t <;> first | rfl | exact absurd plain id

/-- A collection and its parts. -/
def collection (make : α → Node) (parts : Build α) : Build Nat := do
  let id ← begin none
  complete id (make (← parts))
  return id

theorem collection_eq {parts : Build α} {make : α → Node} {a : α}
    (h : parts (building ts (nodes ++ [.sequence .sequence []])) =
      .ok (a, building more (nodes ++ .sequence .sequence [] :: inner))) :
    collection make parts (building ts nodes) =
      .ok (nodes.length, building more (nodes ++ make a :: inner)) := by
  have begins : begin none (building ts nodes) =
      .ok (nodes.length, building ts (nodes ++ [.sequence .sequence []])) := addNode_none _
  rw [collection, bind_of_ok begins, bind_of_ok h, bind_of_ok (complete_append _ _)]
  rfl

/-- The node that a token begins. -/
def begun (place : Place) (n : Nat) : Token → Build Nat
  | .scalar plain u => do
    pass
    addNode none (.scalar (if plain then freeTag u else .string) u)
  | .item =>
    if place.bareItems then collection (.sequence .sequence) (bareItems n) else misplaced
  | .flowSequence => do
    pass
    collection (.sequence .sequence) (flowItems true n)
  | .flowMapping => do
    pass
    collection (.mapping .mapping) (flowEntries true n)
  | .blockSequence =>
    if place.block then do
      pass
      collection (.sequence .sequence) (blockItems n)
    else misplaced
  | .blockMapping =>
    if place.block then do
      pass
      collection (.mapping .mapping) (blockEntries n)
    else misplaced
  | _ => misplaced

theorem node_cons (place : Place) (n : Nat) (plain : IsPlainToken t) (ts : List Token)
    (nodes : List Node) :
    node place (n + 1) (building (t :: ts) nodes) = begun place n t (building (t :: ts) nodes) := by
  have unbound : isBound noProperties.anchor (building (t :: ts) nodes) =
      .ok (false, building (t :: ts) nodes) := rfl
  rw [node, bind_of_ok peek_cons]
  cases t with
  | «alias» | anchor | tag | directive | documentStart => exact absurd plain id
  | scalar marked u =>
    dsimp only
    rw [bind_of_ok (properties_cons plain), bind_of_ok peek_cons, bind_of_ok unbound]
    simp [noProperties, Properties.scalarTag, Properties.tagOr, begun]
  | _ =>
    dsimp only
    rw [bind_of_ok (properties_cons plain), bind_of_ok peek_cons, bind_of_ok unbound]
    rfl

theorem nodeUnless_cons {stops : List Token} (place : Place) (n : Nat)
    (fits : stops.contains t = false) :
    nodeUnless stops place (n + 1) (building (t :: ts) nodes) =
      node place n (building (t :: ts) nodes) := by
  rw [nodeUnless, bind_of_ok (atAny_cons fits)]
  rfl

end Steps

/-! ## Scalars -/

/-- The tag of a scalar is found again. -/
theorem freeTag_of_choose {tag : NodeTag} {t : Text} {key : Bool}
    (untagged : tag ≠ .string → Style.choose tag t false key = .plain) :
    (if Style.choose tag t false key == .plain then freeTag t else .string) = tag := by
  by_cases plain : Style.choose tag t false key = .plain
  · obtain ⟨implicit, allowed⟩ := choose_eq_plain plain
    have lines : t.any isBreak = false := by
      cases t with
      | nil => rfl
      | cons c rest =>
        simp only [Features.of, Bool.and_eq_true, Bool.not_eq_true'] at allowed
        exact allowed.1.1.1.2
    have noBreak : (t.getLast? == some 10) = false := beq_eq_false_iff_ne.mpr fun last => by
      have ends := List.any_eq_false.mp lines 10 (List.mem_of_getLast? last)
      exact ends rfl
    rw [plain, if_pos (by rfl), freeTag, noBreak, Bool.and_false]
    exact implicit
  · have string : tag = .string := Decidable.byContradiction fun other => plain (untagged other)
    rw [if_neg (by simpa using plain), string]

/-! ## Data -/

section Data

/-- What begins data ends no item and no entry. -/
theorem exists_firstToken (d : Data) (behindKey : Bool) :
    ∃ t ts, d.tokens behindKey = t :: ts ∧ IsPlainToken t ∧
      ([.key, .value, .blockEnd] : List Token).contains t = false ∧
      (behindKey = false → t ≠ .item) := by
  cases d with
  | atom a => exact ⟨_, _, rfl, trivial, rfl, nofun⟩
  | list items =>
    cases items with
    | nil => exact ⟨_, _, rfl, trivial, rfl, nofun⟩
    | cons d items => cases behindKey <;> exact ⟨_, _, rfl, trivial, rfl, nofun⟩
  | map entries =>
    cases entries with
    | nil => exact ⟨_, _, rfl, trivial, rfl, nofun⟩
    | cons entry entries => exact ⟨_, _, rfl, trivial, rfl, nofun⟩

/-- A loop over items: each item stands behind a hyphen, and what stands behind the last of them
ends the loop. -/
structure ItemLoop (loop : Nat → Build (List Nat)) (rest more : List Token) where
  stops : List Token
  finish : Build (List Nat)
  step : ∀ n, loop (n + 1) = do
    if ← passed .item then
      let item ← nodeUnless stops ⟨true, false⟩ n
      return item :: (← loop n)
    else finish
  fits : ∀ t ∈ stops, t ∈ blockStops
  last : rest.head? ≠ some .item
  finishes : ∀ nodes, finish (building rest nodes) = .ok ([], building more nodes)

def bareLoop {more : List Token} (last : more.head? ≠ some .item) :
    ItemLoop bareItems more more where
  stops := blockStops
  finish := pure []
  step n := by rw [bareItems]
  fits t member := member
  last := last
  finishes nodes := rfl

def blockLoop (more : List Token) : ItemLoop blockItems (.blockEnd :: more) more where
  stops := [.item, .blockEnd]
  finish := do
    require .blockEnd
    return []
  step n := by rw [blockItems]
  fits := by decide
  last := nofun
  finishes nodes := by
    rw [bind_of_ok require_cons]
    rfl

mutual

/-- The tokens of data are built into the nodes of data. -/
theorem node_of_tokens : (d : Data) → (behindKey : Bool) → (place : Place) → place.block = true →
    (behindKey = true → place.bareItems = true) → {n : Nat} →
    3 * (d.tokens behindKey).length + 2 ≤ n → (more : List Token) →
    (behindKey = true → more.head? ≠ some .item) → (nodes : List Node) →
    node place n (building (d.tokens behindKey ++ more) nodes) =
      .ok (nodes.length, building more (nodes ++ d.nodesFrom nodes.length))
  | .atom a, behindKey, place, block, bare, n + 1, fuel, more, noItem, nodes => by
    rw [Data.tokens, List.singleton_append, node_cons place n (by exact trivial), begun,
      bind_of_ok pass_cons, addNode_none, Atom.isPlain,
      freeTag_of_choose fun noText => (choose_of_atom noText).1]
    rfl
  | .list items, behindKey, place, block, bare, n + 1, fuel, more, noItem, nodes => by
    have length : (nodes ++ [Node.sequence .sequence []]).length = nodes.length + 1 :=
      List.length_append
    cases items with
    | nil =>
      obtain ⟨n, rfl⟩ : ∃ m, n = m + 1 := ⟨n - 1, by simp [Data.tokens] at fuel; omega⟩
      have parts : flowItems true (n + 1) (building (.flowSequenceEnd :: more)
          (nodes ++ [.sequence .sequence []])) =
          .ok ([], building more (nodes ++ .sequence .sequence [] :: [])) := by
        rw [flowItems, bind_of_ok passed_cons]
        rfl
      exact (node_cons place _ (by exact trivial) _ _).trans
        ((bind_of_ok pass_cons).trans (collection_eq parts))
    | cons d items =>
      cases behindKey with
      | true =>
        have parts := items_of_tokens (d :: items) (bareLoop (noItem rfl)) (n := n)
          (by simp only [Data.tokens, List.isEmpty_cons] at fuel; simpa using fuel)
          (nodes ++ [.sequence .sequence []])
        rw [length, List.append_assoc] at parts
        have begins := node_cons place n (t := .item) trivial
          (d.tokens false ++ itemTokens items ++ more) nodes
        rw [begun, if_pos (bare rfl)] at begins
        exact begins.trans (collection_eq (by simpa [itemTokens] using parts))
      | false =>
        have parts := items_of_tokens (d :: items) (blockLoop more) (n := n)
          (by simp [Data.tokens] at fuel; omega) (nodes ++ [.sequence .sequence []])
        rw [length, List.append_assoc] at parts
        have begins := node_cons place n (t := .blockSequence) trivial
          (itemTokens (d :: items) ++ .blockEnd :: more) nodes
        rw [begun, if_pos block, bind_of_ok pass_cons] at begins
        simpa [Data.tokens, Data.nodesFrom] using begins.trans (collection_eq parts)
  | .map entries, behindKey, place, block, bare, n + 1, fuel, more, noItem, nodes => by
    have length : (nodes ++ [Node.sequence .sequence []]).length = nodes.length + 1 :=
      List.length_append
    cases entries with
    | nil =>
      obtain ⟨n, rfl⟩ : ∃ m, n = m + 1 := ⟨n - 1, by simp [Data.tokens] at fuel; omega⟩
      have parts : flowEntries true (n + 1) (building (.flowMappingEnd :: more)
          (nodes ++ [.sequence .sequence []])) =
          .ok ([], building more (nodes ++ .sequence .sequence [] :: [])) := by
        rw [flowEntries, bind_of_ok passed_cons]
        rfl
      exact (node_cons place _ (by exact trivial) _ _).trans
        ((bind_of_ok pass_cons).trans (collection_eq parts))
    | cons entry entries =>
      have parts := entries_of_tokens (entry :: entries) more (n := n)
        (by simp [Data.tokens] at fuel; omega) (nodes ++ [.sequence .sequence []])
      rw [length, List.append_assoc] at parts
      have begins := node_cons place n (t := .blockMapping) trivial
        (entryTokens (entry :: entries) ++ .blockEnd :: more) nodes
      rw [begun, if_pos block, bind_of_ok pass_cons] at begins
      simpa [Data.tokens, Data.nodesFrom] using begins.trans (collection_eq parts)

theorem items_of_tokens : (items : List Data) → {loop : Nat → Build (List Nat)} →
    {rest more : List Token} → ItemLoop loop rest more → {n : Nat} →
    3 * (itemTokens items).length + 1 ≤ n → (nodes : List Node) →
    loop n (building (itemTokens items ++ rest) nodes) =
      .ok (itemIds nodes.length items, building more (nodes ++ itemNodes nodes.length items))
  | [], loop, rest, more, items, n + 1, fuel, nodes => by
    rw [items.step, itemTokens, List.nil_append, bind_of_ok (passed_other items.last),
      if_neg Bool.false_ne_true, items.finishes]
    simp [itemIds, itemNodes]
  | d :: others, loop, rest, more, items, n + 1, fuel, nodes => by
    obtain ⟨n, rfl⟩ : ∃ m, n = m + 1 := ⟨n - 1, by simp [itemTokens] at fuel; omega⟩
    simp only [itemTokens, List.length_cons, List.length_append] at fuel
    obtain ⟨t, ts, same, -, stops, noItem⟩ := exists_firstToken d false
    have fits : items.stops.contains t = false := by
      refine Bool.eq_false_iff.mpr fun member => ?_
      have stop := items.fits t (List.contains_iff_mem.mp member)
      rcases List.mem_cons.mp stop with item | stop
      · exact noItem rfl item
      · rw [List.contains_iff_mem.mpr stop] at stops
        cases stops
    have first := node_of_tokens d false ⟨true, false⟩ rfl nofun (n := n) (by omega)
      (itemTokens others ++ rest) nofun nodes
    have later := items_of_tokens others items (n := n + 1) (by omega)
      (nodes ++ d.nodesFrom nodes.length)
    rw [List.length_append, d.length_nodesFrom] at later
    rw [same, List.cons_append, ← nodeUnless_cons _ n fits, ← List.cons_append, ← same] at first
    rw [items.step, itemTokens, List.cons_append, List.append_assoc, bind_of_ok passed_cons,
      if_pos rfl, bind_of_ok first, bind_of_ok later]
    simp [itemIds, itemNodes, pure_building]

theorem entries_of_tokens : (entries : List (Text × Data)) → (more : List Token) → {n : Nat} →
    3 * (entryTokens entries).length + 1 ≤ n → (nodes : List Node) →
    blockEntries n (building (entryTokens entries ++ .blockEnd :: more) nodes) =
      .ok (entryIds nodes.length entries, building more (nodes ++ entryNodes nodes.length entries))
  | [], more, n + 1, fuel, nodes => by
    rw [blockEntries, entryTokens, List.nil_append, bind_of_ok (passed_other (by simp)),
      if_neg Bool.false_ne_true, bind_of_ok require_cons]
    simp [entryIds, entryNodes, pure_building]
  | (key, d) :: others, more, n + 1, fuel, nodes => by
    obtain ⟨n, rfl⟩ : ∃ m, n = m + 2 := ⟨n - 2, by simp [entryTokens, keyTokens] at fuel; omega⟩
    simp only [entryTokens, keyTokens, List.length_cons, List.length_append,
      List.length_nil] at fuel
    obtain ⟨t, ts, same, -, stops, -⟩ := exists_firstToken d (isSimple key)
    have named (us : List Token) : nodeUnless [.key, .value, .blockEnd] ⟨true, true⟩ (n + 2)
        (building (.scalar (keyStyle key == .plain) key :: us) nodes) =
        .ok (nodes.length, building us (nodes ++ [.scalar .string key])) := by
      rw [nodeUnless_cons _ _ (by rfl), node_cons _ _ (by exact trivial), begun,
        bind_of_ok pass_cons, addNode_none, keyStyle, freeTag_of_choose fun noText => absurd rfl noText]
    have first := node_of_tokens d (isSimple key) ⟨true, true⟩ rfl (fun _ => rfl) (n := n + 1)
      (by omega) (entryTokens others ++ .blockEnd :: more)
      (fun _ => by cases others <;> simp [entryTokens, keyTokens])
      (nodes ++ [.scalar .string key])
    have later := entries_of_tokens others more (n := n + 2) (by omega)
      (nodes ++ [.scalar .string key] ++ d.nodesFrom (nodes.length + 1))
    simp only [List.length_append, List.length_singleton, d.length_nodesFrom] at first later
    rw [same, List.cons_append, ← nodeUnless_cons _ _ stops, ← List.cons_append, ← same] at first
    rw [blockEntries, entryTokens, keyTokens, List.append_assoc, List.append_assoc]
    simp only [List.cons_append, List.nil_append]
    rw [bind_of_ok passed_cons, if_pos rfl, bind_of_ok (named _), bind_of_ok passed_cons,
      if_pos rfl, bind_of_ok first, bind_of_ok later]
    simp [entryIds, entryNodes, pure_building]

end

/-- A document that begins with data ends behind them. -/
theorem document_cons {t : Token} (plain : IsPlainToken t) {ts : List Token} {n root : Nat}
    {nodes : List Node}
    (built : node ⟨true, false⟩ n (building (t :: ts) []) = .ok (root, building [] nodes)) :
    document n (building (t :: ts) []) = .ok (some root, building [] nodes) := by
  have ends : passEnds n (building [] nodes) = .ok ((), building [] nodes) := by
    cases n with
    | zero => rfl
    | succ n =>
      rw [passEnds, bind_of_ok (passed_other (by simp))]
      rfl
  rw [document, bind_of_ok peek_cons]
  cases t with
  | «alias» | anchor | tag | directive | documentStart => exact absurd plain id
  | _ => exact (bind_of_ok built).trans ((bind_of_ok ends).trans (bind_of_ok peek_nil))

/-- The graph of tokens that are built into one node and its parts. -/
theorem ofTokens_cons {t : Token} (plain : IsPlainToken t) {ts : List Token} {root : Nat}
    {nodes : List Node}
    (built : node ⟨true, false⟩ (stepsPerToken * ((t :: ts).length + 2)) (building (t :: ts) []) =
      .ok (root, building [] nodes)) :
    ofTokens ⟨t :: ts, none⟩ = .ok ⟨nodes.toArray, some root⟩ := by
  have found : StateT.run (document (stepsPerToken * ((t :: ts).length + 2)))
      ⟨⟨t :: ts, none⟩, #[], [], standardHandles⟩ = .ok (some root, building [] nodes) :=
    document_cons plain built
  rw [ofTokens]
  simp only [found, bind, Except.bind]
  rfl

/-- The graph of the tokens of data. -/
theorem ofTokens_tokens (d : Data) :
    ofTokens ⟨d.tokens false, none⟩ = .ok ⟨(d.nodesFrom 0).toArray, some 0⟩ := by
  obtain ⟨t, ts, same, plain, -⟩ := exists_firstToken d false
  have root := node_of_tokens d false ⟨true, false⟩ rfl nofun
    (n := stepsPerToken * ((d.tokens false).length + 2)) (by rw [stepsPerToken]; omega) [] nofun []
  rw [List.append_nil, same] at root
  rw [same]
  exact ofTokens_cons plain root

end Data

end Yaml.Graph

end SwaggerDoc
