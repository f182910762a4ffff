import Mathlib.Data.List.Nodup
import SwaggerDoc.Proofs.Store.Parts

/-!
Values of which no part is shared.

`Branches` goes down from values through cells of some kinds and says which places it passes, each
as often as it is reached. Where no place is passed twice, a place is reached on one way only
(`IsTree.way_unique`). What branches out in one store does so in every store that embeds it; so a
copy of a tree of lists and mappings is such a tree at places of its own, and a shape that takes
nothing but plain scalars and copies of such trees is placed as a tree (`Shape.newTrees_place`).
-/

namespace SwaggerDoc

/-- Whether a cell is a list or a mapping. -/
def Cell.isListOrMap : Cell → Bool
  | .list _ | .map _ => true
  | _ => false

/-- Whether a cell is a list, a tuple or a mapping: what shapes are made of. -/
def Cell.isStructure : Cell → Bool
  | .list _ | .tuple _ | .map _ => true
  | _ => false

theorem Cell.isStructure_of_isListOrMap {c : Cell} (kind : c.isListOrMap = true) :
    c.isStructure = true := by
  cases c <;> first | rfl | cases kind

theorem Cell.isPlain_of_isStructure {c : Cell} (kind : c.isStructure = true) :
    c.isPlain = true := by
  cases c <;> first | rfl | cases kind

theorem Cell.isListOrMap_moved (move : Place → Place) (c : Cell) :
    (c.moved move).isListOrMap = c.isListOrMap := by
  cases c <;> rfl

namespace Store

/-- The values branch out into plain scalars through cells of the given kinds. The places come as
they are met from left to right, a container before its parts, and as often as they are reached. -/
inductive Branches (s : Store) (kinds : Cell → Bool) : List Value → List Place → Prop
  | nil : Branches s kinds [] []
  | scalar {x : Scalar} {rest : List Value} {places : List Place} :
    x.isPlain = true → Branches s kinds rest places → Branches s kinds (.scalar x :: rest) places
  | container {p : Place} {c : Cell} {rest : List Value} {inner others : List Place} :
    s.cell? p = some c → kinds c = true → Branches s kinds c.parts inner →
    Branches s kinds rest others → Branches s kinds (.ref p :: rest) (p :: (inner ++ others))

/-- The value is a tree of cells of the given kinds: nothing in it is reached twice. -/
def IsTree (s : Store) (kinds : Cell → Bool) (v : Value) : Prop :=
  ∃ places, s.Branches kinds [v] places ∧ places.Nodup

variable {s t : Store} {kinds : Cell → Bool} {values others : List Value}
  {places later : List Place}

namespace Branches

theorem single {p : Place} {c : Cell} {inner : List Place} (cell : s.cell? p = some c)
    (kind : kinds c = true) (parts : s.Branches kinds c.parts inner) :
    s.Branches kinds [.ref p] (p :: inner) := by
  have alone := container cell kind parts .nil
  rwa [List.append_nil] at alone

theorem append (left : s.Branches kinds values places) (right : s.Branches kinds others later) :
    s.Branches kinds (values ++ others) (places ++ later) := by
  induction left with
  | nil => exact right
  | scalar plain _ ih => exact .scalar plain ih
  | container cell kind parts _ _ ih =>
    rw [List.cons_append, List.cons_append, List.append_assoc]
    exact .container cell kind parts ih

/-- One part of many and those behind it pass places of their own. -/
theorem of_cons {v : Value} (branches : s.Branches kinds (v :: values) places) :
    ∃ first others, places = first ++ others ∧ s.Branches kinds [v] first ∧
      s.Branches kinds values others := by
  cases branches with
  | scalar plain rest => exact ⟨[], places, rfl, .scalar plain .nil, rest⟩
  | container cell kind parts rest => exact ⟨_, _, rfl, single cell kind parts, rest⟩

theorem imp {kinds' : Cell → Bool} (weaker : ∀ c, kinds c = true → kinds' c = true)
    (branches : s.Branches kinds values places) : s.Branches kinds' values places := by
  induction branches with
  | nil => exact .nil
  | scalar plain _ ih => exact .scalar plain ih
  | container cell kind _ _ ih ih' => exact .container cell (weaker _ kind) ih ih'

/-- Only cells of the kinds are passed. -/
theorem kind (branches : s.Branches kinds values places) :
    ∀ p ∈ places, ∃ c, s.cell? p = some c ∧ kinds c = true := by
  induction branches with
  | nil => exact List.forall_mem_nil _
  | scalar _ _ ih => exact ih
  | container cell kind _ _ ih ih' =>
    exact List.forall_mem_cons.mpr ⟨⟨_, cell, kind⟩, List.forall_mem_append.mpr ⟨ih, ih'⟩⟩

theorem filled (branches : s.Branches kinds values places) : ∀ p ∈ places, p < s.size := by
  intro p member
  obtain ⟨c, cell, -⟩ := branches.kind p member
  exact lt_size_of_cell? cell

theorem mem_of_place? (branches : s.Branches kinds values places) :
    ∀ v ∈ values, ∀ p, v.place? = some p → p ∈ places := by
  induction branches with
  | nil => exact List.forall_mem_nil _
  | scalar _ _ ih => exact List.forall_mem_cons.mpr ⟨nofun, ih⟩
  | container cell kind _ _ _ ih =>
    refine List.forall_mem_cons.mpr ⟨?_, fun v member p points => ?_⟩
    · rintro p ⟨⟩
      exact List.mem_cons_self
    · exact List.mem_cons_of_mem _ (List.mem_append_right _ (ih v member p points))

theorem holds (branches : s.Branches kinds values places) : ∀ v ∈ values, s.Holds v :=
  fun v member p points => branches.filled p (branches.mem_of_place? v member p points)

/-! ## Other stores -/

section Embeds

variable {region : Place → Prop} {move : Place → Place}

/-- All places that are passed lie in the region in which the values lie. -/
theorem inside (embeds : Embeds s t region move) (branches : s.Branches kinds values places)
    (begins : ∀ v ∈ values, ∀ p, v.place? = some p → region p) : ∀ p ∈ places, region p := by
  induction branches with
  | nil => exact List.forall_mem_nil _
  | scalar _ _ ih => exact ih (List.forall_mem_cons.mp begins).2
  | container cell _ _ _ ih ih' =>
    obtain ⟨first, rest⟩ := List.forall_mem_cons.mp begins
    have here := first _ rfl
    exact List.forall_mem_cons.mpr
      ⟨here, List.forall_mem_append.mpr ⟨ih (embeds.closed here cell), ih' rest⟩⟩

/-- Values of the region branch out on the other side as they do on this, at the moved places. -/
theorem moved (embeds : Embeds s t region move) (same : ∀ c, kinds (c.moved move) = kinds c)
    (branches : s.Branches kinds values places)
    (begins : ∀ v ∈ values, ∀ p, v.place? = some p → region p) :
    t.Branches kinds (values.map (Value.moved move)) (places.map move) := by
  induction branches with
  | nil => exact .nil
  | scalar plain _ ih => exact .scalar plain (ih (List.forall_mem_cons.mp begins).2)
  | @container p c rest inner others cell kind _ _ ih ih' =>
    obtain ⟨first, rest⟩ := List.forall_mem_cons.mp begins
    have here := first p rfl
    have cell' : t.cell? (move p) = some (c.moved move) := by
      rw [embeds.cell?_eq p here, cell, Option.map_some]
    have parts := ih (embeds.closed here cell)
    rw [← Cell.parts_moved] at parts
    rw [List.map_cons, List.map_cons, List.map_append]
    exact .container cell' ((same c).trans kind) parts (ih' rest)

end Embeds

/-- What branches out in a closed store does so in every store that has more. -/
theorem mono (branches : s.Branches kinds values places) (closed : s.Closed)
    (extends' : s.Extends t) : t.Branches kinds values places := by
  have branches' := branches.moved (closed.embeds_of_extends extends')
    (fun c => congrArg kinds c.moved_id) branches.holds
  rwa [funext Value.moved_id, List.map_id', List.map_id] at branches'

end Branches

/-! ## Ways -/

/-- What a way leads to, each of its steps the number of a part. -/
def along? (s : Store) : List Nat → Value → Option Value
  | [], v => some v
  | n :: way, v => do s.along? way (← (← s.deref? v).parts[n]?)

theorem along?_cons_eq_some {n : Nat} {way : List Nat} {v w : Value} :
    s.along? (n :: way) v = some w ↔
      ∃ c part, s.deref? v = some c ∧ c.parts[n]? = some part ∧ s.along? way part = some w := by
  simp [along?, Option.bind_eq_some_iff]

namespace Branches

/-- Each of the values branches out by itself, through places that are passed in all. -/
theorem sublist_of_mem (branches : s.Branches kinds values places) {v : Value}
    (member : v ∈ values) : ∃ first, s.Branches kinds [v] first ∧ first.Sublist places := by
  induction values generalizing places with
  | nil => cases member
  | cons w rest ih =>
    obtain ⟨first, others, rfl, here, behind⟩ := branches.of_cons
    rcases List.mem_cons.mp member with rfl | member
    · exact ⟨first, here, List.sublist_append_left first others⟩
    · obtain ⟨inner, there, inside⟩ := ih behind member
      exact ⟨inner, there, inside.trans (List.sublist_append_right first others)⟩

theorem exists_of_deref? {v : Value} {c : Cell} (branches : s.Branches kinds [v] places)
    (cell : s.deref? v = some c) :
    ∃ p inner, v = .ref p ∧ places = p :: inner ∧ s.Branches kinds c.parts inner := by
  cases branches with
  | scalar _ _ => cases cell
  | @container p _ _ inner _ here _ parts rest =>
    obtain rfl := Option.some.inj (here.symm.trans cell)
    cases rest
    exact ⟨p, inner, rfl, by rw [List.append_nil], parts⟩

/-- A way leads to a place that is passed. -/
theorem mem_of_along? {way : List Nat} {v : Value} {p : Place} (member : v ∈ values)
    (branches : s.Branches kinds values places) (leads : s.along? way v = some (.ref p)) :
    p ∈ places := by
  induction way generalizing values places v with
  | nil =>
    obtain rfl := Option.some.inj leads
    exact branches.mem_of_place? _ member p rfl
  | cons n way ih =>
    obtain ⟨c, part, cell, listed, leads⟩ := along?_cons_eq_some.mp leads
    obtain ⟨first, here, inside⟩ := branches.sublist_of_mem member
    obtain ⟨q, inner, -, rfl, parts⟩ := here.exists_of_deref? cell
    exact inside.mem (List.mem_cons_of_mem q (ih (List.mem_of_getElem? listed) parts leads))

/-- A place is reached through one of the values only. -/
theorem index_unique (branches : s.Branches kinds values places) (nodup : places.Nodup)
    {n m : Nat} {v w : Value} {way way' : List Nat} {p : Place} (listed : values[n]? = some v)
    (listed' : values[m]? = some w) (leads : s.along? way v = some (.ref p))
    (leads' : s.along? way' w = some (.ref p)) : n = m := by
  induction values generalizing places n m with
  | nil => cases listed
  | cons u rest ih =>
    obtain ⟨first, others, rfl, here, behind⟩ := branches.of_cons
    obtain ⟨-, nodup', apart⟩ := List.nodup_append.mp nodup
    -- What is reached through the first value is reached through none behind it.
    have distinct {x : Value} {way way' : List Nat} (there : x ∈ rest)
        (leads : s.along? way u = some (.ref p)) : s.along? way' x ≠ some (.ref p) := fun leads' =>
      apart p (mem_of_along? List.mem_cons_self here leads) p (mem_of_along? there behind leads') rfl
    cases n with
    | zero =>
      obtain rfl := Option.some.inj listed
      cases m with
      | zero => rfl
      | succ m => exact absurd leads' (distinct (List.mem_of_getElem? listed') leads)
    | succ n =>
      cases m with
      | zero =>
        obtain rfl := Option.some.inj listed'
        exact absurd leads (distinct (List.mem_of_getElem? listed) leads')
      | succ m => rw [ih behind nodup' listed listed']

end Branches

namespace IsTree

theorem mono {v : Value} (tree : s.IsTree kinds v) (closed : s.Closed) (extends' : s.Extends t) :
    t.IsTree kinds v := by
  obtain ⟨places, branches, nodup⟩ := tree
  exact ⟨places, branches.mono closed extends', nodup⟩

theorem holds {v : Value} (tree : s.IsTree kinds v) : s.Holds v := by
  obtain ⟨places, branches, -⟩ := tree
  exact branches.holds v List.mem_cons_self

/-- The parts of a tree branch out apart from each other and from the place of the whole. -/
theorem parts {v : Value} (tree : s.IsTree kinds v) {c : Cell} (cell : s.deref? v = some c) :
    ∃ p inner, v = .ref p ∧ s.Branches kinds c.parts inner ∧ p ∉ inner ∧ inner.Nodup := by
  obtain ⟨places, branches, nodup⟩ := tree
  obtain ⟨p, inner, same, rfl, parts⟩ := branches.exists_of_deref? cell
  obtain ⟨fresh, nodup'⟩ := List.nodup_cons.mp nodup
  exact ⟨p, inner, same, parts, fresh, nodup'⟩

theorem of_mem {c : Cell} {inner : List Place} (branches : s.Branches kinds c.parts inner)
    (nodup : inner.Nodup) {w : Value} (part : w ∈ c.parts) : s.IsTree kinds w := by
  obtain ⟨first, here, inside⟩ := branches.sublist_of_mem part
  exact ⟨first, here, nodup.sublist inside⟩

/-- No way leads back to where it begins. -/
theorem not_back {v : Value} (tree : s.IsTree kinds v) {n : Nat} {way : List Nat} {p : Place}
    (begins : v = .ref p) : s.along? (n :: way) v ≠ some (.ref p) := by
  intro leads
  obtain ⟨c, part, cell, listed, leads⟩ := along?_cons_eq_some.mp leads
  obtain ⟨q, inner, same, parts, fresh, -⟩ := tree.parts cell
  obtain rfl := Value.ref.inj (begins.symm.trans same)
  exact fresh (Branches.mem_of_along? (List.mem_of_getElem? listed) parts leads)

/-- Every place in a tree is reached on one way. -/
theorem way_unique {v : Value} (tree : s.IsTree kinds v) {way way' : List Nat} {p : Place}
    (leads : s.along? way v = some (.ref p)) (leads' : s.along? way' v = some (.ref p)) :
    way = way' := by
  induction way generalizing v way' with
  | nil =>
    cases way' with
    | nil => rfl
    | cons m way' => exact absurd leads' (tree.not_back (Option.some.inj leads))
  | cons n way ih =>
    cases way' with
    | nil => exact absurd leads (tree.not_back (Option.some.inj leads'))
    | cons m way' =>
      obtain ⟨c, part, cell, listed, leads⟩ := along?_cons_eq_some.mp leads
      obtain ⟨c', part', cell', listed', leads'⟩ := along?_cons_eq_some.mp leads'
      obtain rfl := Option.some.inj (cell.symm.trans cell')
      obtain ⟨-, inner, -, parts, -, nodup⟩ := tree.parts cell
      obtain rfl := parts.index_unique nodup listed listed' leads leads'
      obtain rfl := Option.some.inj (listed.symm.trans listed')
      rw [ih (of_mem parts nodup (List.mem_of_getElem? listed)) leads leads']

end IsTree

/-- What branches out shows data. -/
theorem IsTree.isData_unfold {v : Value} (tree : s.IsTree Cell.isStructure v) :
    (s.unfold v).IsData := by
  obtain ⟨places, branches, -⟩ := tree
  refine everywhere_unfold (fun w => ∃ places, s.Branches Cell.isStructure [w] places) ?_
    (fun _ datum _ => datum) ?_ ⟨places, branches⟩
  · rintro x ⟨places, branches⟩
    cases branches with
    | scalar plain _ => exact plain
  · rintro p ⟨places, branches⟩
    obtain ⟨c, cell, kind⟩ := branches.kind p (branches.mem_of_place? _ List.mem_cons_self p rfl)
    obtain ⟨-, inner, -, -, parts⟩ := branches.exists_of_deref? cell
    refine ⟨c, cell, Cell.isPlain_of_isStructure kind, fun w part => ?_⟩
    obtain ⟨first, here, -⟩ := parts.sublist_of_mem part
    exact ⟨first, here⟩

/-! ## Copies -/

theorem isFixed_eq_false {p : Place} {c : Cell} (cell : s.cell? p = some c)
    (loose : c.isTuple = false) : s.isFixed p = false := by
  by_contra fixed
  rw [Bool.not_eq_false] at fixed
  have tuple := List.all_eq_true.mp fixed p (mem_reached_self rfl (lt_size_of_cell? cell))
  simp [holdsTuple, cell, loose] at tuple

/-- A copy of a tree of lists and mappings is one too, at new places. -/
theorem Closed.branches_copy (closed : s.Closed) {v : Value} (tree : s.IsTree Cell.isListOrMap v) :
    ∃ places, (s.copy v).2.Branches Cell.isListOrMap [(s.copy v).1] places ∧ places.Nodup ∧
      ∀ p ∈ places, s.size ≤ p := by
  obtain ⟨places, branches, nodup⟩ := tree
  have embeds := closed.embeds_copy v
  have begins : ∀ w ∈ [v], ∀ p, w.place? = some p → p ∈ s.reached v := by
    rintro w member p points
    obtain rfl := List.mem_singleton.mp member
    exact mem_reached_self points (branches.holds w member p points)
  have reached := branches.inside embeds begins
  refine ⟨places.map (s.relocation (s.copied v)),
    branches.moved embeds (Cell.isListOrMap_moved _) begins, ?_, List.forall_mem_map.mpr ?_⟩
  · refine List.Nodup.map_on (fun p member q member' same => ?_) nodup
    exact embeds.injective p q (reached p member) (reached q member') same
  · intro p member
    obtain ⟨c, cell, kind⟩ := branches.kind p member
    have loose : c.isTuple = false := by
      cases c <;> first | rfl | cases kind
    have copied := mem_copied.mpr ⟨reached p member, isFixed_eq_false cell loose⟩
    obtain ⟨n, -, same, -⟩ := relocation_of_mem (s := s) copied
    rw [same]
    exact Nat.le_add_right _ _

/-! ## New trees -/

/-- The values are trees with no place in common and none among the first. -/
def NewTrees (s : Store) (n : Nat) (values : List Value) : Prop :=
  ∃ places, s.Branches Cell.isStructure values places ∧ places.Nodup ∧ ∀ p ∈ places, n ≤ p

namespace NewTrees

theorem nil (s : Store) (n : Nat) : s.NewTrees n [] := ⟨[], .nil, .nil, List.forall_mem_nil _⟩

theorem cons_scalar {n : Nat} {v : Value} (scalar : v.IsPlainScalar) (new : s.NewTrees n values) :
    s.NewTrees n (v :: values) := by
  obtain ⟨x, plain, rfl⟩ := scalar
  obtain ⟨places, branches, nodup, new⟩ := new
  exact ⟨places, .scalar plain branches, nodup, new⟩

theorem isTree {n : Nat} {v : Value} (new : s.NewTrees n [v]) : s.IsTree Cell.isStructure v := by
  obtain ⟨places, branches, nodup, -⟩ := new
  exact ⟨places, branches, nodup⟩

/-- What comes behind all places so far shares nothing with what is there. -/
theorem append {n : Nat} (closed : s.Closed) (extends' : s.Extends t) (le : n ≤ s.size)
    (first : s.NewTrees n values) (later : t.NewTrees s.size others) :
    t.NewTrees n (values ++ others) := by
  obtain ⟨places, branches, nodup, new⟩ := first
  obtain ⟨places', branches', nodup', new'⟩ := later
  refine ⟨places ++ places', (branches.mono closed extends').append branches', ?_, ?_⟩
  · refine List.nodup_append.mpr ⟨nodup, nodup', ?_⟩
    rintro p member p member' rfl
    exact Nat.not_lt_of_le (new' p member') (branches.filled p member)
  · exact List.forall_mem_append.mpr ⟨new, fun p member => Nat.le_trans le (new' p member)⟩

/-- A new container of new trees is a new tree. -/
theorem alloc {n : Nat} {c : Cell} (closed : s.Closed) (le : n ≤ s.size)
    (kind : c.isStructure = true) (parts : s.NewTrees n c.parts) :
    (s.alloc c).2.NewTrees n [(s.alloc c).1] := by
  obtain ⟨places, branches, nodup, new⟩ := parts
  have fresh : s.size ∉ places := fun member => Nat.lt_irrefl _ (branches.filled _ member)
  exact ⟨s.size :: places,
    .single (s.cell?_alloc_self c) kind (branches.mono closed (s.extends_alloc c)),
    List.nodup_cons.mpr ⟨fresh, nodup⟩, List.forall_mem_cons.mpr ⟨le, new⟩⟩

end NewTrees

end Store

/-! ## Placing -/

namespace Shape

open Store

/-- The shape takes plain scalars as they are, and copies of trees of lists and mappings. -/
abbrev TakesTrees (s : Store) (shape : Shape) : Prop :=
  shape.Takes Value.IsPlainScalar (s.IsTree Cell.isListOrMap)

/-- The shapes take plain scalars as they are, and copies of trees. -/
abbrev AllTakeTrees (s : Store) (shapes : List Shape) : Prop :=
  AllTake Value.IsPlainScalar (s.IsTree Cell.isListOrMap) shapes

/-- The entries take plain scalars as they are, and copies of trees. -/
abbrev EntriesTakeTrees (s : Store) (entries : List (Value × Shape)) : Prop :=
  EntriesTake Value.IsPlainScalar (s.IsTree Cell.isListOrMap) entries

section Held

variable {s : Store}

theorem TakesTrees.heldBy {shape : Shape} (takes : shape.TakesTrees s) : shape.HeldBy s :=
  takes.imp (fun _ => Value.IsPlainScalar.holds) fun _ => IsTree.holds

theorem AllTakeTrees.heldBy {shapes : List Shape} (takes : AllTakeTrees s shapes) :
    AllHeldBy s shapes :=
  takes.imp (fun _ => Value.IsPlainScalar.holds) fun _ => IsTree.holds

theorem EntriesTakeTrees.heldBy {entries : List (Value × Shape)}
    (takes : EntriesTakeTrees s entries) : EntriesHeldBy s entries :=
  takes.imp (fun _ => Value.IsPlainScalar.holds) fun _ => IsTree.holds

end Held

mutual

/-- What is placed is a tree at new places. -/
theorem newTrees_place {s : Store} (closed : s.Closed) : {shape : Shape} → shape.TakesTrees s →
    (shape.place s).2.NewTrees s.size [(shape.place s).1]
  | .value v, takes => .cons_scalar takes.shared_value (.nil s s.size)
  | .copy v, takes => by
    obtain ⟨places, branches, nodup, new⟩ := closed.branches_copy takes.copied_copy
    exact ⟨places, branches.imp fun _ => Cell.isStructure_of_isListOrMap, nodup, new⟩
  | .list items, takes => by
    have items' : AllTakeTrees s items := takes.of_list
    exact .alloc (closed_placeAll closed items'.heldBy).1 (extends_placeAll items s).size_le rfl
      (newTrees_placeAll closed items')
  | .tuple items, takes => by
    have items' : AllTakeTrees s items := takes.of_tuple
    exact .alloc (closed_placeAll closed items'.heldBy).1 (extends_placeAll items s).size_le rfl
      (newTrees_placeAll closed items')
  | .map entries, takes => by
    have entries' : EntriesTakeTrees s entries := takes.of_map
    exact .alloc (closed_placeEntries closed entries'.heldBy).1
      (extends_placeEntries entries s).size_le rfl (newTrees_placeEntries closed entries')

theorem newTrees_placeAll {s : Store} (closed : s.Closed) :
    {shapes : List Shape} → AllTakeTrees s shapes →
      (placeAll s shapes).2.NewTrees s.size (placeAll s shapes).1
  | [], _ => .nil s s.size
  | shape :: rest, takes => by
    have first : shape.TakesTrees s := takes.head
    have extends' := extends_place shape s
    have closed' := (closed_place closed first.heldBy).1
    have later : AllTakeTrees (shape.place s).2 rest :=
      takes.tail.imp (fun _ => id) fun _ tree => tree.mono closed extends'
    exact .append closed' (extends_placeAll rest _) extends'.size_le (newTrees_place closed first)
      (newTrees_placeAll closed' later)

theorem newTrees_placeEntries {s : Store} (closed : s.Closed) :
    {entries : List (Value × Shape)} → EntriesTakeTrees s entries →
      (placeEntries s entries).2.NewTrees s.size (Cell.map (placeEntries s entries).1).parts
  | [], _ => .nil s s.size
  | (key, shape) :: rest, takes => by
    have first : shape.TakesTrees s := takes.head
    have extends' := extends_place shape s
    have closed' := (closed_place closed first.heldBy).1
    have later : EntriesTakeTrees (shape.place s).2 rest :=
      takes.tail.imp (fun _ => id) fun _ tree => tree.mono closed extends'
    exact .cons_scalar takes.key (.append closed' (extends_placeEntries rest _) extends'.size_le
      (newTrees_place closed first) (newTrees_placeEntries closed' later))

end

end Shape

end SwaggerDoc
