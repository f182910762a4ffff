import Mathlib.Data.List.Forall2
import SwaggerDoc.Proofs.Store.Keys
import SwaggerDoc.Proofs.Yaml.Building
import SwaggerDoc.Yaml.Loading

/-!
The values that the nodes of data are given.

Collections are placed empty and filled later, so what holds at every moment is `Loaded`: each node
that was met has a value, and what its value points to either waits to be filled or holds the values
of the parts. Once nothing waits, the value of the root stands for the data (`exists_load`).
-/

namespace SwaggerDoc

open Yaml

/-- The characters of a written atom are read as the atom. -/
theorem Atom.content {a : Atom} (written : a.Written) (s : Store) :
    Content.value s a.tag a.characters = .ok (.scalar a.scalar, s) := by
  cases a with
  | null => rfl
  | bool b => cases b <;> rfl
  | int i =>
    have read := whole_ofInt written
    rw [Atom.tag, Atom.characters, Content.value, read]
    rfl
  | text t => rfl

/-- The node with a number is a scalar that is read as the atom. -/
def Atom.At (nodes : Array Node) (a : Atom) (id : Nat) : Prop :=
  ∃ t, nodes[id]? = some (.scalar a.tag t) ∧
    ∀ s : Store, Content.value s a.tag t = .ok (.scalar a.scalar, s)

mutual

/-- The node with a number is that of the data. -/
def Data.At (nodes : Array Node) : Data → Nat → Prop
  | .atom a, id => a.At nodes id
  | .list items, id => ∃ ids, nodes[id]? = some (.sequence .sequence ids) ∧ AllAt nodes items ids
  | .map entries, id => ∃ ids, nodes[id]? = some (.mapping .mapping ids) ∧
    EntriesAt nodes entries ids

/-- The nodes with some numbers are those of the items, in order. -/
def AllAt (nodes : Array Node) : List Data → List Nat → Prop
  | [], ids => ids = []
  | d :: rest, ids => ∃ id more, ids = id :: more ∧ d.At nodes id ∧ AllAt nodes rest more

/-- The nodes with some numbers are those of the keys and values, in order. -/
def EntriesAt (nodes : Array Node) : List (Text × Data) → List (Nat × Nat) → Prop
  | [], ids => ids = []
  | (key, d) :: rest, ids => ∃ k id more, ids = (k, id) :: more ∧
    Atom.At nodes (.text key) k ∧ d.At nodes id ∧ EntriesAt nodes rest more

end

section At

theorem getElem?_append_cons (front later : List Node) (x : Node) :
    (front ++ x :: later).toArray[front.length]? = some x := by
  simp

mutual

/-- The nodes of written data are where they were numbered. -/
theorem Data.at_nodesFrom : (d : Data) → d.Written → (front later : List Node) →
    d.At (front ++ (d.nodesFrom front.length ++ later)).toArray front.length
  | .atom a, written, front, later => ⟨_, getElem?_append_cons front later _, Atom.content written⟩
  | .list items, written, front, later => by
    refine ⟨_, getElem?_append_cons front _ _, ?_⟩
    have parts := allAt_itemNodes items written
      (front ++ [.sequence .sequence (itemIds (front.length + 1) items)]) later
    simpa [Data.nodesFrom] using parts
  | .map entries, written, front, later => by
    refine ⟨_, getElem?_append_cons front _ _, ?_⟩
    have parts := entriesAt_entryNodes entries written
      (front ++ [.mapping .mapping (entryIds (front.length + 1) entries)]) later
    simpa [Data.nodesFrom] using parts

theorem allAt_itemNodes : (items : List Data) → Data.AllWritten items →
    (front later : List Node) →
    AllAt (front ++ (itemNodes front.length items ++ later)).toArray items
      (itemIds front.length items)
  | [], _, front, later => rfl
  | d :: rest, ⟨written, writtenRest⟩, front, later => by
    have first := d.at_nodesFrom written front (itemNodes (front.length + d.count) rest ++ later)
    have others := allAt_itemNodes rest writtenRest (front ++ d.nodesFrom front.length) later
    rw [List.length_append, d.length_nodesFrom] at others
    simp only [List.append_assoc] at others
    refine ⟨_, _, rfl, ?_, ?_⟩ <;> simpa [itemNodes]

theorem entriesAt_entryNodes : (entries : List (Text × Data)) → Data.EntriesWritten entries →
    (front later : List Node) →
    EntriesAt (front ++ (entryNodes front.length entries ++ later)).toArray entries
      (entryIds front.length entries)
  | [], _, front, later => rfl
  | (key, d) :: rest, ⟨written, writtenRest⟩, front, later => by
    have first := d.at_nodesFrom written (front ++ [.scalar .string key])
      (entryNodes (front.length + 1 + d.count) rest ++ later)
    have others := entriesAt_entryNodes rest writtenRest
      (front ++ .scalar .string key :: d.nodesFrom (front.length + 1)) later
    rw [List.length_append, List.length_cons, d.length_nodesFrom, Nat.add_comm d.count,
      ← Nat.add_assoc] at others
    refine ⟨_, _, _, rfl, ⟨_, getElem?_append_cons front _ _, fun _ => rfl⟩, ?_, ?_⟩
    · simpa [entryNodes] using first
    · simpa [entryNodes] using others

end

end At

mutual

/-- No mapping has a key twice. -/
def Data.DistinctKeys : Data → Prop
  | .atom _ => True
  | .list items => AllDistinctKeys items
  | .map entries => (entries.map Prod.fst).Nodup ∧ EntriesDistinctKeys entries

/-- No mapping in the items has a key twice. -/
def AllDistinctKeys : List Data → Prop
  | [] => True
  | d :: rest => d.DistinctKeys ∧ AllDistinctKeys rest

/-- No mapping in the values of entries has a key twice. -/
def EntriesDistinctKeys : List (Text × Data) → Prop
  | [] => True
  | (_, d) :: rest => d.DistinctKeys ∧ EntriesDistinctKeys rest

end

section Stands

variable {s : Store}

mutual

theorem Store.Stands.distinctKeys : (d : Data) → {v : Value} → {places : List Place} →
    s.Stands d v places → d.DistinctKeys
  | .atom _, _, _, _ => trivial
  | .list items, _, _, ⟨_, _, _, _, _, _, parts⟩ => parts.distinctKeys items
  | .map entries, _, _, ⟨_, _, _, _, _, _, parts, nodup⟩ => ⟨nodup, parts.distinctKeys entries⟩

theorem Store.StandAll.distinctKeys : (items : List Data) → {values : List Value} →
    {places : List Place} → s.StandAll items values places → AllDistinctKeys items
  | [], _, _, _ => trivial
  | d :: rest, _, _, ⟨_, _, _, _, _, _, here, later⟩ =>
    ⟨here.distinctKeys d, later.distinctKeys rest⟩

theorem Store.StandEntries.distinctKeys : (entries : List (Text × Data)) →
    {values : List (Value × Value)} → {places : List Place} →
    s.StandEntries entries values places → EntriesDistinctKeys entries
  | [], _, _, _ => trivial
  | (_, d) :: rest, _, _, ⟨_, _, _, _, _, _, here, later⟩ =>
    ⟨here.distinctKeys d, later.distinctKeys rest⟩

end

end Stands

/-- A node is that of one atom only. -/
theorem Atom.At.scalar_eq {nodes : Array Node} {id : Nat} {a b : Atom} (at_a : a.At nodes id)
    (at_b : b.At nodes id) : Value.scalar a.scalar = .scalar b.scalar := by
  obtain ⟨t, found, content⟩ := at_a
  obtain ⟨u, found', content'⟩ := at_b
  obtain ⟨tag, characters⟩ := Node.scalar.inj (Option.some.inj (found.symm.trans found'))
  have same := content' .empty
  rw [← tag, ← characters, content] at same
  exact congrArg Prod.fst (Except.ok.inj same)

section Collect

variable {s : Store}

theorem Store.insert_of_new {found : List (Value × Value)} {key v : Value}
    (new : ∀ e ∈ found, s.sameKey e.1 key = false) :
    s.insert found key v = found ++ [(key, v)] := by
  induction found with
  | nil => rfl
  | cons e found ih =>
    obtain ⟨other, later⟩ := List.forall_mem_cons.mp new
    rw [Store.insert, other, if_neg Bool.false_ne_true, ih later, List.cons_append]

theorem Store.foldl_insert_texts {es found : List (Value × Value)} {keys before : List Text}
    (named : es.map Prod.fst = keys.map .ofText) (named' : found.map Prod.fst = before.map .ofText)
    (nodup : (before ++ keys).Nodup) :
    es.foldl (fun found e => s.insert found e.1 e.2) found = found ++ es := by
  induction es generalizing found keys before with
  | nil => simp
  | cons e es ih =>
    obtain ⟨w, v⟩ := e
    cases keys with
    | nil => cases named
    | cons key keys =>
      obtain ⟨rfl, later⟩ := List.cons.inj named
      have new : ∀ e ∈ found, s.sameKey e.1 (.ofText key) = false := by
        intro e member
        have listed : e.1 ∈ before.map Value.ofText := named' ▸ List.mem_map_of_mem member
        obtain ⟨other, earlier, same⟩ := List.mem_map.mp listed
        rw [← same, Store.sameKey_ofText]
        refine beq_eq_false_iff_ne.mpr fun equal => ?_
        have equal : key = other := Option.some.inj equal
        exact (List.nodup_append.mp nodup).2.2 other earlier key List.mem_cons_self equal.symm
      have named'' : (found ++ [(Value.ofText key, v)]).map Prod.fst =
          (before ++ [key]).map Value.ofText := by
        simp [named']
      rw [List.foldl_cons, Store.insert_of_new new, ih later named'' (by simpa using nodup)]
      simp

/-- Entries with different texts as keys are collected as they are. -/
theorem Store.collect_texts (s : Store) {es : List (Value × Value)} {keys : List Text}
    (named : es.map Prod.fst = keys.map .ofText) (nodup : keys.Nodup) : s.collect es = es := by
  have empty : ([] : List (Value × Value)).map Prod.fst = ([] : List Text).map .ofText := rfl
  exact Store.foldl_insert_texts named empty nodup

end Collect

namespace Yaml.Loading

variable {l l' l'' : Loading} {waiting more more' : List (Place × Nat)} {id : Nat} {v : Value}

/-- The node with a number has been given a value. -/
def Has (l : Loading) (id : Nat) (v : Value) : Prop := l.values.lookup id = some v

/-- A cell holds the values of the parts of a node. -/
def Fills (l : Loading) : Node → Cell → Prop
  | .sequence _ ids, .list values => List.Forall₂ l.Has ids values
  | .mapping _ ids, .map entries =>
    List.Forall₂ (fun e w => l.Has e.1 w.1 ∧ l.Has e.2 w.2) ids entries
  | _, _ => False

/-- Whether a node has parts. -/
def IsCollection : Node → Prop
  | .scalar .. => False
  | _ => True

/-- What holds while nodes are given values: `waiting` are the collections to be filled. -/
structure Loaded (waiting : List (Place × Nat)) (l : Loading) : Prop where
  atoms : ∀ id v a, l.Has id v → Atom.At l.nodes a id → v = .scalar a.scalar
  collections : ∀ id v n, l.Has id v → l.nodes[id]? = some n → IsCollection n →
    ∃ p, v = .ref p ∧ ((p, id) ∈ waiting ∨ ∃ c, l.store.cell? p = some c ∧ l.Fills n c)
  waits : ∀ p id, (p, id) ∈ waiting → l.Has id (.ref p) ∧
    ∃ d : Data, d.At l.nodes id ∧ d.DistinctKeys ∧ ∀ a, d ≠ .atom a
  apart : ∀ id id' p, l.Has id (.ref p) → l.Has id' (.ref p) → id = id'
  placed : ∀ id p, l.Has id (.ref p) → p < l.store.size
  once : (l.values.map Prod.fst).Nodup
  known : ∀ id ∈ l.values.map Prod.fst, id < l.nodes.size

/-- Values are added, and what is new waits behind what waited. -/
structure Grows (l l' : Loading) (more : List (Place × Nat)) : Prop where
  nodes : l'.nodes = l.nodes
  store : l.store.Extends l'.store
  values : ∀ id v, l.Has id v → l'.Has id v
  waiting : l'.waiting = l.waiting ++ more
  count : l.values.length + more.length ≤ l'.values.length

theorem Grows.refl (l : Loading) : Grows l l [] where
  nodes := rfl
  store := .refl _
  values _ _ has := has
  waiting := (List.append_nil _).symm
  count := Nat.le_refl _

theorem Grows.trans (first : Grows l l' more) (later : Grows l' l'' more') :
    Grows l l'' (more ++ more') where
  nodes := later.nodes.trans first.nodes
  store := first.store.trans later.store
  values id v has := later.values id v (first.values id v has)
  waiting := by rw [later.waiting, first.waiting, List.append_assoc]
  count := by
    have counted := first.count
    have counted' := later.count
    rw [List.length_append]
    omega

theorem Fills.mono {n : Node} {c : Cell} (fills : l.Fills n c)
    (values : ∀ id v, l.Has id v → l'.Has id v) : l'.Fills n c := by
  cases n with
  | scalar => cases c <;> exact fills
  | sequence tag ids =>
    cases c with
    | list items => exact List.Forall₂.imp (fun id v has => values id v has) fills
    | _ => exact fills
  | mapping tag ids =>
    cases c with
    | map entries =>
      exact List.Forall₂.imp (fun e w has => ⟨values _ _ has.1, values _ _ has.2⟩) fills
    | _ => exact fills

/-- The content of a sequence or a mapping is no set, so it lies as it came. -/
theorem Fills.settled {n : Node} {c : Cell} (fills : l.Fills n c) (s : Store) (p : Place) :
    s.settled p c = c := by
  cases n <;> cases c <;> first | rfl | exact fills.elim

/-! ## One value -/

section ValueOf

theorem has_cons {i : Nat} {w : Value} (values : l'.values = (id, v) :: l.values) :
    l'.Has i w ↔ if i = id then w = v else l.Has i w := by
  unfold Has
  rw [values, List.lookup_cons]
  by_cases same : i = id
  · simp [same, eq_comm]
  · have differs : (i == id) = false := beq_eq_false_iff_ne.mpr same
    simp [differs, same]

theorem has_of_new (values : l'.values = (id, v) :: l.values) (new : l.values.lookup id = none)
    {i : Nat} {w : Value} (before : l.Has i w) : l'.Has i w := by
  rw [has_cons values, if_neg]
  · exact before
  · rintro rfl
    rw [Has, new] at before
    cases before

/-- A node that was not met before is given a value. -/
theorem Loaded.add (loaded : Loaded waiting l) (values : l'.values = (id, v) :: l.values)
    (nodes : l'.nodes = l.nodes) (store : l.store.Extends l'.store)
    (new : l.values.lookup id = none)
    (known : id < l.nodes.size)
    (atoms : ∀ a : Atom, a.At l.nodes id → v = .scalar a.scalar)
    (collections : ∀ n, l.nodes[id]? = some n → IsCollection n →
      ∃ p, v = .ref p ∧ (p, id) ∈ more)
    (waits : ∀ p i, (p, i) ∈ more → i = id ∧ v = .ref p ∧
      ∃ d : Data, d.At l.nodes id ∧ d.DistinctKeys ∧ ∀ a, d ≠ .atom a)
    (placed : ∀ p, v = .ref p → l.store.size ≤ p ∧ p < l'.store.size) :
    Loaded (waiting ++ more) l' := by
  have has (i : Nat) (w : Value) : l'.Has i w ↔ if i = id then w = v else l.Has i w :=
    has_cons values
  have stays : ∀ i w, l.Has i w → l'.Has i w := fun i w before => has_of_new values new before
  constructor
  · intro i w a met there
    rw [has] at met
    rw [nodes] at there
    split at met
    · next same =>
      subst same met
      exact atoms a there
    · exact loaded.atoms i w a met there
  · intro i w n met there parts
    rw [has] at met
    rw [nodes] at there
    split at met
    · next same =>
      subst same met
      obtain ⟨p, same, waits⟩ := collections n there parts
      exact ⟨p, same, .inl (List.mem_append_right _ waits)⟩
    · obtain ⟨p, same, waits | ⟨c, cell, fills⟩⟩ := loaded.collections i w n met there parts
      · exact ⟨p, same, .inl (List.mem_append_left _ waits)⟩
      · exact ⟨p, same, .inr ⟨c, store.cell?_of_some cell, fills.mono stays⟩⟩
  · intro p i member
    rw [nodes]
    rcases List.mem_append.mp member with before | added
    · obtain ⟨met, d⟩ := loaded.waits p i before
      exact ⟨stays i _ met, d⟩
    · obtain ⟨rfl, rfl, d⟩ := waits p i added
      exact ⟨(has i _).mpr (by rw [if_pos rfl]), d⟩
  · intro i j p met met'
    rw [has] at met met'
    split at met
    · next same =>
      split at met'
      · next same' => exact same.trans same'.symm
      · have new := (placed p met.symm).1
        have old := loaded.placed j p met'
        exact absurd (Nat.lt_of_lt_of_le old new) (Nat.lt_irrefl p)
    · split at met'
      · have new := (placed p met'.symm).1
        have old := loaded.placed i p met
        exact absurd (Nat.lt_of_lt_of_le old new) (Nat.lt_irrefl p)
      · exact loaded.apart i j p met met'
  · intro i p met
    rw [has] at met
    split at met
    · exact (placed p met.symm).2
    · exact Nat.lt_of_lt_of_le (loaded.placed i p met) store.size_le
  · rw [values, List.map_cons, List.nodup_cons]
    refine ⟨fun member => ?_, loaded.once⟩
    obtain ⟨e, mem, rfl⟩ := List.mem_map.mp member
    exact absurd new (by simpa [List.lookup_eq_none_iff] using ⟨e.2, mem⟩)
  · rw [values, nodes, List.map_cons, List.forall_mem_cons]
    exact ⟨known, loaded.known⟩

theorem nodeAt_eq {n : Node} (there : l.nodes[id]? = some n) : nodeAt id l = .ok (n, l) := by
  have got : (get : Load Loading) l = .ok (l, l) := rfl
  rw [nodeAt, bind_of_ok got, there]
  rfl

theorem valueOf_met (met : l.Has id v) : valueOf id l = .ok (v, l) := by
  have got : (get : Load Loading) l = .ok (l, l) := rfl
  rw [valueOf, bind_of_ok got]
  simp only [show l.values.lookup id = some v from met]
  rfl

/-- An atom that was not met before is given its value. -/
theorem valueOf_atom {a : Atom} (there : a.At l.nodes id) (new : l.values.lookup id = none) :
    valueOf id l =
      .ok (.scalar a.scalar, { l with values := (id, .scalar a.scalar) :: l.values }) := by
  have got : (get : Load Loading) l = .ok (l, l) := rfl
  obtain ⟨t, found, content⟩ := there
  have noCell : emptyCell? (Node.scalar a.tag t).tag = none := by cases a <;> rfl
  have scalar : ¬(!isScalarTag (Node.scalar a.tag t).tag) = true := by
    cases a <;> exact Bool.false_ne_true
  have read : characters id l = .ok (t, l) := by
    rw [characters, bind_of_ok got, charactersWithin, bind_of_ok (nodeAt_eq found)]
    rfl
  rw [valueOf, bind_of_ok got]
  simp only [new]
  rw [bind_of_ok (nodeAt_eq found)]
  have lifted : (liftM (Content.value l.store a.tag t) : Load (Value × Store)) l =
      .ok ((.scalar a.scalar, l.store), l) := by
    rw [content]
    rfl
  simp only [noCell]
  rw [if_neg scalar, bind_of_ok read]
  exact bind_of_ok lifted

/-- A collection that was not met before is given an empty place. -/
theorem valueOf_collection {n : Node} {c : Cell} (there : l.nodes[id]? = some n)
    (new : l.values.lookup id = none) (empty : emptyCell? n.tag = some c) :
    valueOf id l = .ok (.ref l.store.size,
      { l with
        store := (l.store.alloc c).2
        values := (id, .ref l.store.size) :: l.values
        waiting := l.waiting ++ [(l.store.size, id)] }) := by
  have got : (get : Load Loading) l = .ok (l, l) := rfl
  rw [valueOf, bind_of_ok got]
  simp only [new]
  rw [bind_of_ok (nodeAt_eq there)]
  simp only [empty]
  rfl

/-- The node of data is given a value. -/
theorem exists_valueOf (loaded : Loaded waiting l) {d : Data} (there : d.At l.nodes id)
    (distinct : d.DistinctKeys) :
    ∃ v l' more, valueOf id l = .ok (v, l') ∧ Loaded (waiting ++ more) l' ∧ Grows l l' more ∧
      l'.Has id v := by
  cases new : l.values.lookup id with
  | some v => exact ⟨v, l, [], valueOf_met new, by simpa using loaded, .refl l, new⟩
  | none =>
    have known {n : Node} (found : l.nodes[id]? = some n) : id < l.nodes.size :=
      (Array.getElem?_eq_some_iff.mp found).1
    by_cases atom : ∃ a, d = .atom a
    · obtain ⟨a, rfl⟩ := atom
      have there' : Atom.At l.nodes a id := there
      obtain ⟨t, scalar, -⟩ := there
      refine ⟨_, _, [], valueOf_atom there' new, ?_, ?_, ?_⟩
      · refine loaded.add rfl rfl (.refl _) new (known scalar) ?_ ?_ nofun nofun
        · exact fun b met => Atom.At.scalar_eq there' met
        · intro n found parts
          obtain rfl := Option.some.inj (scalar.symm.trans found)
          exact False.elim parts
      · exact ⟨rfl, .refl _, fun i w => has_of_new rfl new, (List.append_nil _).symm, Nat.le_succ _⟩
      · exact (has_cons rfl).mpr (by rw [if_pos rfl])
    · obtain ⟨n, c, found, parts, empty⟩ : ∃ n c, l.nodes[id]? = some n ∧ IsCollection n ∧
          emptyCell? n.tag = some c := by
        cases d with
        | atom a => exact absurd ⟨a, rfl⟩ atom
        | list items =>
          obtain ⟨ids, found, -⟩ := there
          exact ⟨_, _, found, trivial, rfl⟩
        | map entries =>
          obtain ⟨ids, found, -⟩ := there
          exact ⟨_, _, found, trivial, rfl⟩
      refine ⟨_, _, [(l.store.size, id)], valueOf_collection found new empty, ?_, ?_, ?_⟩
      · refine loaded.add rfl rfl (Store.extends_alloc _ _) new (known found) ?_ ?_ ?_ ?_
        · intro a met
          obtain ⟨t, met, -⟩ := met
          obtain rfl := Option.some.inj (found.symm.trans met)
          exact False.elim parts
        · exact fun n' _ _ => ⟨_, rfl, List.mem_singleton_self _⟩
        · intro p i member
          obtain ⟨rfl, rfl⟩ := Prod.mk.inj (List.mem_singleton.mp member)
          exact ⟨rfl, rfl, d, there, distinct, fun a same => atom ⟨a, same⟩⟩
        · rintro p ⟨⟩
          exact ⟨Nat.le_refl _, by simp⟩
      · exact ⟨rfl, Store.extends_alloc _ _, fun i w => has_of_new rfl new, rfl, Nat.le_refl _⟩
      · exact (has_cons rfl).mpr (by rw [if_pos rfl])

end ValueOf

/-! ## The parts of a collection -/

section Parts

/-- The nodes of items are given values. -/
theorem exists_values {items : List Data} {ids : List Nat} (loaded : Loaded waiting l)
    (there : AllAt l.nodes items ids) (distinct : AllDistinctKeys items) :
    ∃ vs l' more, ids.mapM valueOf l = .ok (vs, l') ∧ Loaded (waiting ++ more) l' ∧
      Grows l l' more ∧ List.Forall₂ l'.Has ids vs := by
  induction items generalizing l waiting ids with
  | nil =>
    obtain rfl := there
    exact ⟨[], l, [], rfl, by simpa using loaded, .refl l, .nil⟩
  | cons d items ih =>
    obtain ⟨id, ids, rfl, here, later⟩ := there
    obtain ⟨v, l', more, first, loaded', grows, has⟩ := exists_valueOf loaded here distinct.1
    rw [← grows.nodes] at later
    obtain ⟨vs, l'', more', rest, loaded'', grows', all⟩ := ih loaded' later distinct.2
    refine ⟨v :: vs, l'', more ++ more', ?_, by simpa using loaded'', grows.trans grows',
      .cons (grows'.values id v has) all⟩
    rw [List.mapM_cons, bind_of_ok first, bind_of_ok rest]
    rfl

/-- The values of a key and of what is behind it. -/
def keyedValue (entry : Nat × Nat) : Load (Value × Value) := do
  let k ← valueOf entry.1
  if !(← get).store.hashable k then meaningless
  return (k, ← valueOf entry.2)

theorem keyedValues_eq (id : Nat) :
    keyedValues id = mergedEntries id >>= fun ids => ids.mapM keyedValue := rfl

theorem keyedValue_eq {k : Nat} {w : Scalar} (key : valueOf k l = .ok (.scalar w, l'))
    (value : valueOf id l' = .ok (v, l'')) : keyedValue (k, id) l = .ok ((.scalar w, v), l'') := by
  have got : (get : Load Loading) l' = .ok (l', l') := rfl
  have hashable : l'.store.hashable (.scalar w) = true := rfl
  rw [keyedValue, bind_of_ok key, bind_of_ok got]
  simp only [hashable]
  exact bind_of_ok value

/-- The nodes of keys and values are given values, and the keys are those of the data. -/
theorem exists_keyedValues {entries : List (Text × Data)} {ids : List (Nat × Nat)}
    (loaded : Loaded waiting l) (there : EntriesAt l.nodes entries ids)
    (distinct : EntriesDistinctKeys entries) :
    ∃ es l' more, ids.mapM keyedValue l = .ok (es, l') ∧ Loaded (waiting ++ more) l' ∧
      Grows l l' more ∧ List.Forall₂ (fun e w => l'.Has e.1 w.1 ∧ l'.Has e.2 w.2) ids es ∧
      es.map Prod.fst = entries.map fun e => .ofText e.1 := by
  induction entries generalizing l waiting ids with
  | nil =>
    obtain rfl := there
    exact ⟨[], l, [], rfl, by simpa using loaded, .refl l, .nil, rfl⟩
  | cons entry entries ih =>
    obtain ⟨key, d⟩ := entry
    obtain ⟨k, id, ids, rfl, named, here, later⟩ := there
    have keyThere : (Data.atom (.text key)).At l.nodes k := named
    obtain ⟨w, l₁, more₁, first, loaded₁, grows₁, has₁⟩ := exists_valueOf loaded keyThere trivial
    obtain rfl : w = .ofText key := by
      have named' : Atom.At l₁.nodes (.text key) k := by rwa [grows₁.nodes]
      exact loaded₁.atoms k w (.text key) has₁ named'
    rw [← grows₁.nodes] at here
    obtain ⟨v, l₂, more₂, second, loaded₂, grows₂, has₂⟩ := exists_valueOf loaded₁ here distinct.1
    have grows := grows₁.trans grows₂
    rw [← grows.nodes] at later
    obtain ⟨es, l₃, more₃, rest, loaded₃, grows₃, all, keys⟩ := ih loaded₂ later distinct.2
    refine ⟨(.ofText key, v) :: es, l₃, more₁ ++ more₂ ++ more₃, ?_, by simpa using loaded₃,
      grows.trans grows₃, .cons ⟨?_, grows₃.values id v has₂⟩ all, by simp [keys]⟩
    · rw [List.mapM_cons, bind_of_ok (keyedValue_eq first second), bind_of_ok rest]
      rfl
    · exact grows₃.values _ _ (grows₂.values _ _ has₁)

theorem exists_key {entries : List (Text × Data)} {ids : List (Nat × Nat)} {nodes : Array Node}
    (there : EntriesAt nodes entries ids) :
    ∀ e ∈ ids, ∃ key, nodes[e.1]? = some (.scalar .string key) := by
  induction entries generalizing ids with
  | nil =>
    obtain rfl := there
    exact List.forall_mem_nil _
  | cons entry entries ih =>
    obtain ⟨k, id, ids, rfl, named, -, later⟩ := there
    obtain ⟨t, found, -⟩ := named
    exact List.forall_mem_cons.mpr ⟨⟨t, found⟩, ih later⟩

/-- Without merge keys and default keys, the entries of a mapping are its own. -/
theorem mergedEntries_eq {entries : List (Text × Data)} {ids : List (Nat × Nat)}
    (found : l.nodes[id]? = some (.mapping .mapping ids)) (there : EntriesAt l.nodes entries ids) :
    mergedEntries id l = .ok (ids, l) := by
  have got : (get : Load Loading) l = .ok (l, l) := rfl
  have own : entriesOf id l = .ok (ids, l) := by
    rw [entriesOf, bind_of_ok (nodeAt_eq found)]
    rfl
  have keys := exists_key there
  have none : firstMerge? l.nodes (ids.drop 0) = none := by
    rw [firstMerge?, List.drop_zero, List.findIdx?_eq_none_iff]
    intro e member
    obtain ⟨key, named⟩ := keys e member
    rw [named]
    rfl
  have plain : ids.forM plainKey l = .ok ((), l) := by
    clear found own none there
    induction ids with
    | nil => rfl
    | cons e ids ih =>
      obtain ⟨⟨key, named⟩, later⟩ := List.forall_mem_cons.mp keys
      have first : plainKey e l = .ok ((), l) := by
        rw [plainKey, bind_of_ok (nodeAt_eq named)]
        rfl
      exact (bind_of_ok first).trans (ih later)
  have merged (m : Nat) (some : ∃ n, m = n + 1) : mergeFrom m id 0 [] l = .ok ((), l) := by
    obtain ⟨n, rfl⟩ := some
    rw [mergeFrom, bind_of_ok own, bind_of_ok got]
    simp only [none]
    rw [bind_of_ok plain]
    rfl
  have bounded (asking : List Nat) : ∃ n, asking.foldl (· + ·) 1 = n + 1 := by
    have counted : asking.foldl (· + ·) (1 + 0) = 1 + asking.foldl (· + ·) 0 := List.foldl_assoc
    exact ⟨asking.foldl (· + ·) 0, counted.trans (Nat.add_comm _ _)⟩
  rw [mergedEntries, bind_of_ok got]
  exact (bind_of_ok (merged _ (bounded _))).trans own

/-- What a collection holds are the values of its parts. -/
theorem exists_contentOf (loaded : Loaded waiting l) {d : Data} (there : d.At l.nodes id)
    (distinct : d.DistinctKeys) (parts : ∀ a, d ≠ .atom a) :
    ∃ n c l' more, l.nodes[id]? = some n ∧ contentOf id l = .ok (c, l') ∧
      Loaded (waiting ++ more) l' ∧ Grows l l' more ∧ l'.Fills n c := by
  cases d with
  | atom a => exact absurd rfl (parts a)
  | list items =>
    obtain ⟨ids, found, there⟩ := there
    obtain ⟨vs, l', more, values, loaded', grows, all⟩ := exists_values loaded there distinct
    have own : itemsOf id l = .ok (ids, l) := by
      rw [itemsOf, bind_of_ok (nodeAt_eq found)]
      rfl
    refine ⟨_, .list vs, l', more, found, ?_, loaded', grows, all⟩
    rw [contentOf, bind_of_ok (nodeAt_eq found)]
    simp only [Node.tag]
    rw [bind_of_ok own, bind_of_ok values]
    rfl
  | map entries =>
    obtain ⟨ids, found, there⟩ := there
    obtain ⟨es, l', more, values, loaded', grows, all, keys⟩ :=
      exists_keyedValues loaded there distinct.2
    have keyed : keyedValues id l = .ok (es, l') := by
      rw [keyedValues_eq, bind_of_ok (mergedEntries_eq found there), values]
    have got : (get : Load Loading) l' = .ok (l', l') := rfl
    have collected : l'.store.collect es = es :=
      l'.store.collect_texts (by simpa [Function.comp_def] using keys) distinct.1
    refine ⟨_, .map es, l', more, found, ?_, loaded', grows, all⟩
    rw [contentOf, bind_of_ok (nodeAt_eq found)]
    simp only [Node.tag]
    rw [bind_of_ok keyed, bind_of_ok got, collected]
    rfl

end Parts

/-! ## Filling -/

section Fill

theorem Loaded.waitingList (loaded : Loaded waiting l) (rest : List (Place × Nat)) :
    Loaded waiting { l with waiting := rest } :=
  ⟨loaded.atoms, fun id v n met found parts =>
      let ⟨p, same, held⟩ := loaded.collections id v n met found parts
      ⟨p, same, held.imp_right fun ⟨c, cell, fills⟩ => ⟨c, cell, fills.mono fun _ _ has => has⟩⟩,
    loaded.waits, loaded.apart, loaded.placed, loaded.once, loaded.known⟩

/-- A collection is filled with the values of its parts. -/
theorem Loaded.fill {p : Place} {n : Node} {c : Cell} (loaded : Loaded ((p, id) :: waiting) l)
    (found : l.nodes[id]? = some n) (fills : l.Fills n c) :
    Loaded waiting { l with store := l.store.write p c } := by
  obtain ⟨points, -⟩ := loaded.waits p id List.mem_cons_self
  have written : (l.store.write p c).cell? p = some c := by
    have filled := loaded.placed id p points
    simp only [Store.size] at filled
    simp only [Store.cell?, Store.write, Array.getElem?_setIfInBounds, filled, if_true]
  refine ⟨loaded.atoms, ?_, fun q i member => loaded.waits q i (List.mem_cons_of_mem _ member),
    loaded.apart, fun i q met => ?_, loaded.once, loaded.known⟩
  · intro i v m met there parts
    obtain ⟨q, rfl, held⟩ := loaded.collections i v m met there parts
    refine ⟨q, rfl, ?_⟩
    by_cases same : q = p
    · subst same
      obtain rfl := loaded.apart i id q met points
      obtain rfl := Option.some.inj (found.symm.trans there)
      exact .inr ⟨c, written, fills.mono fun _ _ has => has⟩
    · rcases held with waits | ⟨c', cell, fills'⟩
      · rcases List.mem_cons.mp waits with here | waits
        · exact absurd (congrArg Prod.fst here) same
        · exact .inl waits
      · exact .inr ⟨c', (Store.cell?_write_of_ne same).trans cell, fills'.mono fun _ _ has => has⟩
  · rw [Store.size_write]
    exact loaded.placed i q met

theorem Loaded.length_le (loaded : Loaded waiting l) : l.values.length ≤ l.nodes.size := by
  have inside : l.values.map Prod.fst ⊆ List.range l.nodes.size := fun id member =>
    List.mem_range.mpr (loaded.known id member)
  simpa using (List.subperm_of_subset loaded.once inside).length_le

/-- All collections are filled. -/
theorem exists_fill (fuel : Nat) (loaded : Loaded l.waiting l)
    (enough : l.nodes.size + 1 + l.waiting.length ≤ fuel + l.values.length) :
    ∃ l', fill fuel l = .ok ((), l') ∧ Loaded [] l' ∧ l'.nodes = l.nodes ∧
      ∀ id v, l.Has id v → l'.Has id v := by
  induction fuel generalizing l with
  | zero =>
    have known := loaded.length_le
    omega
  | succ fuel ih =>
    have got : (get : Load Loading) l = .ok (l, l) := rfl
    cases waits : l.waiting with
    | nil =>
      rw [waits] at loaded
      refine ⟨l, ?_, loaded, rfl, fun _ _ has => has⟩
      rw [fill, bind_of_ok got, waits]
      rfl
    | cons first rest =>
      obtain ⟨p, id⟩ := first
      rw [waits] at loaded enough
      have popped : (modify fun l => { l with waiting := rest } : Load Unit) l =
          .ok ((), { l with waiting := rest }) := rfl
      obtain ⟨-, d, there, distinct, parts⟩ := loaded.waits p id List.mem_cons_self
      obtain ⟨n, c, l', more, found, content, loaded', grows, fills⟩ :=
        exists_contentOf (loaded.waitingList rest) there distinct parts
      have written : (modify fun l =>
          { l with store := l.store.write p (l.store.settled p c) } : Load Unit) l' =
          .ok ((), { l' with store := l'.store.write p c }) := by
        change Except.ok ((), { l' with store := l'.store.write p (l'.store.settled p c) }) = _
        rw [fills.settled]
      have filled : Loaded (rest ++ more) { l' with store := l'.store.write p c } :=
        loaded'.fill (n := n) (by rwa [grows.nodes]) fills
      have waiting_eq : l'.waiting = rest ++ more := grows.waiting
      have enough' : l'.nodes.size + 1 + l'.waiting.length ≤ fuel + l'.values.length := by
        have count : l.values.length + more.length ≤ l'.values.length := grows.count
        have nodes : l'.nodes = l.nodes := grows.nodes
        rw [waiting_eq, nodes, List.length_append]
        rw [List.length_cons] at enough
        omega
      rw [← waiting_eq] at filled
      obtain ⟨l'', rest', loaded'', nodes, values⟩ :=
        ih (l := { l' with store := l'.store.write p c }) filled enough'
      refine ⟨l'', ?_, loaded'', nodes.trans grows.nodes,
        fun i v has => values i v (grows.values i v has)⟩
      rw [fill, bind_of_ok got, waits]
      dsimp only
      rw [bind_of_ok popped, bind_of_ok content, bind_of_ok written]
      exact rest'

/-- The root is given a value, and all collections are filled. -/
theorem exists_root {s : Store} {nodes : Array Node} {d : Data} (there : d.At nodes id)
    (distinct : d.DistinctKeys) :
    ∃ v l, root id ⟨s, nodes, [], []⟩ = .ok (v, l) ∧ Loaded [] l ∧ l.nodes = nodes ∧
      l.Has id v := by
  have empty : Loaded [] ⟨s, nodes, [], []⟩ :=
    ⟨nofun, nofun, nofun, nofun, nofun, List.nodup_nil, nofun⟩
  obtain ⟨v, l, more, first, loaded, grows, has⟩ := exists_valueOf empty there distinct
  have got : (get : Load Loading) l = .ok (l, l) := rfl
  have waiting_eq : l.waiting = more := grows.waiting
  have count : 0 + more.length ≤ l.values.length := grows.count
  obtain ⟨l', filled, loaded', nodes_eq, values⟩ := exists_fill (l.nodes.size + 1)
    (by rw [waiting_eq]; exact loaded) (by rw [waiting_eq]; omega)
  refine ⟨v, l', ?_, loaded', nodes_eq.trans grows.nodes, values id v has⟩
  rw [root, bind_of_ok first, bind_of_ok got, bind_of_ok filled]
  rfl

end Fill

/-! ## What the values stand for -/

mutual

/-- When nothing waits, values stand for the data of their nodes. -/
theorem Loaded.stands (loaded : Loaded [] l) : (d : Data) → {id : Nat} → {v : Value} →
    d.At l.nodes id → d.DistinctKeys → l.Has id v → ∃ places, l.store.Stands d v places
  | .atom a, id, v, there, distinct, has =>
    ⟨[], loaded.atoms id v a has there, rfl⟩
  | .list items, id, v, ⟨ids, found, there⟩, distinct, has => by
    obtain ⟨p, rfl, waits | ⟨c, cell, fills⟩⟩ := loaded.collections id v _ has found trivial
    · cases waits
    · cases c with
      | list vs =>
        obtain ⟨places, all⟩ := loaded.standAll items there distinct fills
        exact ⟨p :: places, p, vs, places, rfl, rfl, cell, all⟩
      | _ => exact fills.elim
  | .map entries, id, v, ⟨ids, found, there⟩, distinct, has => by
    obtain ⟨p, rfl, waits | ⟨c, cell, fills⟩⟩ := loaded.collections id v _ has found trivial
    · cases waits
    · cases c with
      | map es =>
        obtain ⟨places, all⟩ := loaded.standEntries entries there distinct.2 fills
        exact ⟨p :: places, p, es, places, rfl, rfl, cell, all, distinct.1⟩
      | _ => exact fills.elim

theorem Loaded.standAll (loaded : Loaded [] l) : (items : List Data) → {ids : List Nat} →
    {vs : List Value} → AllAt l.nodes items ids → AllDistinctKeys items →
    List.Forall₂ l.Has ids vs →
    ∃ places, l.store.StandAll items vs places
  | [], ids, vs, there, _, has => by
    obtain rfl := there
    cases has
    exact ⟨[], rfl, rfl⟩
  | d :: rest, ids, vs, ⟨id, more, same, here, later⟩, distinct, has => by
    subst same
    cases has with
    | cons has others =>
      obtain ⟨first, stands⟩ := loaded.stands d here distinct.1 has
      obtain ⟨places, all⟩ := loaded.standAll rest later distinct.2 others
      exact ⟨first ++ places, _, _, first, places, rfl, rfl, stands, all⟩

theorem Loaded.standEntries (loaded : Loaded [] l) : (entries : List (Text × Data)) →
    {ids : List (Nat × Nat)} → {es : List (Value × Value)} → EntriesAt l.nodes entries ids →
    EntriesDistinctKeys entries → List.Forall₂ (fun e w => l.Has e.1 w.1 ∧ l.Has e.2 w.2) ids es →
    ∃ places, l.store.StandEntries entries es places
  | [], ids, es, there, _, has => by
    obtain rfl := there
    cases has
    exact ⟨[], rfl, rfl⟩
  | (key, d) :: rest, ids, es, ⟨k, id, more, same, named, here, later⟩, distinct, has => by
    subst same
    cases has with
    | @cons _ w _ others has rest' =>
      obtain ⟨w, v⟩ := w
      obtain rfl := loaded.atoms k w (.text key) has.1 named
      obtain ⟨first, stands⟩ := loaded.stands d here distinct.1 has.2
      obtain ⟨places, all⟩ := loaded.standEntries rest later distinct.2 rest'
      exact ⟨first ++ places, v, others, first, places, rfl, rfl, stands, all⟩

end

end Yaml.Loading

/-- The value of a text whose graph is that of data stands for the data. -/
theorem Yaml.exists_load {t : Text} {nodes : Array Node} {root : Nat} {d : Data}
    (graph : Graph.ofText t = .ok ⟨nodes, some root⟩) (there : d.At nodes root)
    (distinct : d.DistinctKeys) (s : Store) :
    ∃ v s' places, load s t = .ok (v, s') ∧ s'.Stands d v places := by
  obtain ⟨v, l, loads, loaded, same, has⟩ := Loading.exists_root (s := s) there distinct
  rw [← same] at there
  obtain ⟨places, stands⟩ := loaded.stands d there distinct has
  have ran : (Loading.root root).run ⟨s, nodes, [], []⟩ = .ok (v, l) := loads
  refine ⟨v, l.store, places, ?_, stands⟩
  simp only [load, graph, bind, Except.bind, ran]
  rfl

end SwaggerDoc
