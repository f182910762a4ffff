import SwaggerDoc.Proofs.Store.Placed
import SwaggerDoc.Proofs.Store.Plain

/-!
The parts of trees.

A tree has its parts at every depth, the keys of mappings among them. What plain data show are data
in every part (`Store.IsPlain.everywhere_unfold`), and so is what a shape shows that takes nothing
but plain data (`Shape.Takes.everywhere_tree`).
-/

namespace SwaggerDoc

namespace Tree

mutual

/-- A tree and all parts of it. -/
def parts : Tree → List Tree
  | .list items => .list items :: partsOfAll items
  | .tuple items => .tuple items :: partsOfAll items
  | .set items => .set items :: partsOfAll items
  | .map entries => .map entries :: partsOfEntries entries
  | t => [t]

/-- The parts of trees. -/
def partsOfAll : List Tree → List Tree
  | [] => []
  | t :: rest => t.parts ++ partsOfAll rest

/-- The parts of keys and values. -/
def partsOfEntries : List (Tree × Tree) → List Tree
  | [] => []
  | (key, value) :: rest => key.parts ++ value.parts ++ partsOfEntries rest

end

theorem mem_parts_self (t : Tree) : t ∈ t.parts := by
  cases t <;> exact List.mem_cons_self

/-- Every part of the tree is as said. -/
def Everywhere (P : Tree → Prop) (t : Tree) : Prop := ∀ part ∈ t.parts, P part

section Everywhere

variable {P Q : Tree → Prop} {items : List Tree} {entries : List (Tree × Tree)}

theorem Everywhere.imp {t : Tree} (everywhere : t.Everywhere P) (weaker : ∀ part, P part → Q part) :
    t.Everywhere Q :=
  fun part member => weaker part (everywhere part member)

theorem everywhere_and {t : Tree} :
    t.Everywhere (fun part => P part ∧ Q part) ↔ t.Everywhere P ∧ t.Everywhere Q :=
  ⟨fun both => ⟨both.imp fun _ => And.left, both.imp fun _ => And.right⟩,
    fun ⟨left, right⟩ part member => ⟨left part member, right part member⟩⟩

theorem forall_mem_partsOfAll :
    (∀ part ∈ partsOfAll items, P part) ↔ ∀ t ∈ items, t.Everywhere P := by
  induction items with
  | nil => simp [partsOfAll]
  | cons t rest ih =>
    rw [partsOfAll, List.forall_mem_append, List.forall_mem_cons, ih]
    rfl

theorem forall_mem_partsOfEntries :
    (∀ part ∈ partsOfEntries entries, P part) ↔
      ∀ e ∈ entries, e.1.Everywhere P ∧ e.2.Everywhere P := by
  induction entries with
  | nil => simp [partsOfEntries]
  | cons e rest ih =>
    rw [partsOfEntries, List.forall_mem_append, List.forall_mem_append, List.forall_mem_cons, ih]
    rfl

theorem everywhere_list :
    (Tree.list items).Everywhere P ↔ P (.list items) ∧ ∀ t ∈ items, t.Everywhere P := by
  rw [Everywhere, parts, List.forall_mem_cons, forall_mem_partsOfAll]

theorem everywhere_tuple :
    (Tree.tuple items).Everywhere P ↔ P (.tuple items) ∧ ∀ t ∈ items, t.Everywhere P := by
  rw [Everywhere, parts, List.forall_mem_cons, forall_mem_partsOfAll]

theorem everywhere_set :
    (Tree.set items).Everywhere P ↔ P (.set items) ∧ ∀ t ∈ items, t.Everywhere P := by
  rw [Everywhere, parts, List.forall_mem_cons, forall_mem_partsOfAll]

theorem everywhere_map :
    (Tree.map entries).Everywhere P ↔
      P (.map entries) ∧ ∀ e ∈ entries, e.1.Everywhere P ∧ e.2.Everywhere P := by
  rw [Everywhere, parts, List.forall_mem_cons, forall_mem_partsOfEntries]

theorem everywhere_scalar {x : Scalar} : (Tree.scalar x).Everywhere P ↔ P (.scalar x) :=
  List.forall_mem_singleton

theorem everywhere_back {n : Nat} : (Tree.back n).Everywhere P ↔ P (.back n) :=
  List.forall_mem_singleton

theorem everywhere_date {d : Date} : (Tree.date d).Everywhere P ↔ P (.date d) :=
  List.forall_mem_singleton

theorem everywhere_time {t : DateTime} : (Tree.time t).Everywhere P ↔ P (.time t) :=
  List.forall_mem_singleton

theorem everywhere_object : Tree.object.Everywhere P ↔ P .object := List.forall_mem_singleton

end Everywhere

/-- The tree is no declaration and no unknown thing, and no type tag or method. -/
def isDatum : Tree → Bool
  | .scalar x => x.isPlain
  | .field _ | .schema _ | .resource _ | .object => false
  | _ => true

/-- The tree consists of data. -/
def IsData (t : Tree) : Prop := t.Everywhere fun part => part.isDatum = true

end Tree

namespace Store

variable {s : Store}

/-- What is shown of values is everywhere as said if it is so of scalars and of all else that is
data, and if the values lead to plain cells with such values only. -/
theorem everywhere_unfold {P : Tree → Prop} (good : Value → Prop)
    (scalar : ∀ x, good (.scalar x) → P (.scalar x))
    (other : ∀ t : Tree, t.isDatum = true → (∀ x, t ≠ .scalar x) → P t)
    (leads : ∀ p, good (.ref p) →
      ∃ c, s.cell? p = some c ∧ c.isPlain = true ∧ ∀ w ∈ c.parts, good w)
    {v : Value} (begins : good v) : (s.unfold v).Everywhere P := by
  have within (depth : Nat) {outer : List Place} (nodup : outer.Nodup)
      (filled : ∀ p ∈ outer, p < s.size) (enough : s.size < depth + outer.length) {v : Value}
      (begins : good v) : (s.unfoldWithin depth outer v).Everywhere P := by
    induction depth generalizing outer v with
    | zero =>
      have bound := length_le_size nodup filled
      omega
    | succ depth ih =>
      cases v with
      | scalar x => exact Tree.everywhere_scalar.mpr (scalar x begins)
      | ref p =>
        rw [unfoldWithin]
        cases index : outer.idxOf? p with
        | some n => exact Tree.everywhere_back.mpr (other _ rfl fun _ => Tree.noConfusion)
        | none =>
          obtain ⟨c, cell, kind, parts⟩ := leads p begins
          have fresh : p ∉ outer := by simpa using index
          have part (w : Value) (member : w ∈ c.parts) :
              (s.unfoldWithin depth (p :: outer) w).Everywhere P := by
            refine ih (List.nodup_cons.mpr ⟨fresh, nodup⟩)
              (List.forall_mem_cons.mpr ⟨lt_size_of_cell? cell, filled⟩) ?_ (parts w member)
            rw [List.length_cons]
            omega
          rw [cell]
          cases c with
          | list items =>
            exact Tree.everywhere_list.mpr ⟨other _ rfl fun _ => Tree.noConfusion, List.forall_mem_map.mpr part⟩
          | tuple items =>
            exact Tree.everywhere_tuple.mpr ⟨other _ rfl fun _ => Tree.noConfusion, List.forall_mem_map.mpr part⟩
          | set items =>
            exact Tree.everywhere_set.mpr ⟨other _ rfl fun _ => Tree.noConfusion, List.forall_mem_map.mpr part⟩
          | map entries =>
            refine Tree.everywhere_map.mpr
              ⟨other _ rfl fun _ => Tree.noConfusion, List.forall_mem_map.mpr fun e member => ?_⟩
            exact ⟨part e.1 (List.mem_flatMap.mpr ⟨e, member, by simp⟩),
              part e.2 (List.mem_flatMap.mpr ⟨e, member, by simp⟩)⟩
          | date d => exact Tree.everywhere_date.mpr (other _ rfl fun _ => Tree.noConfusion)
          | time t => exact Tree.everywhere_time.mpr (other _ rfl fun _ => Tree.noConfusion)
          | field f => cases kind
          | schema fields => cases kind
          | resource r => cases kind
          | object => cases kind
  exact within (s.size + 1) .nil (List.forall_mem_nil _) (Nat.lt_succ_self _) begins

section Data

variable {data : Store} (plain : data.IsPlain) (extended : data.Extends s)
include plain extended

/-- Plain data lead to plain data, in every store that has more. -/
theorem IsPlain.leads {p : Place} (inside : p < data.size) :
    ∃ c, s.cell? p = some c ∧ c.isPlain = true ∧ ∀ w ∈ c.parts, w.IsPlain data.size := by
  have cell : data.cell? p = some _ := Array.getElem?_eq_getElem inside
  exact ⟨_, extended.cell?_of_some cell, plain.cell cell, plain.parts cell⟩

/-- Plain data show data. -/
theorem IsPlain.isData_unfold {v : Value} (datum : v.IsPlain data.size) : (s.unfold v).IsData :=
  everywhere_unfold (fun w => w.IsPlain data.size) (fun _ plain => plain) (fun _ datum _ => datum)
    (fun _ inside => plain.leads extended inside) datum

/-- A plain cell with plain data in it shows data. -/
theorem IsPlain.isData_unfold_of_deref? {v : Value} {c : Cell} (cell : s.deref? v = some c)
    (kind : c.isPlain = true) (parts : ∀ w ∈ c.parts, w.IsPlain data.size) :
    (s.unfold v).IsData := by
  refine everywhere_unfold (fun w => w = v ∨ w.IsPlain data.size) ?_ (fun _ datum _ => datum) ?_
    (.inl rfl)
  · rintro x (rfl | plain)
    · cases cell
    · exact plain
  · rintro p (rfl | inside)
    · exact ⟨c, cell, kind, fun w member => .inr (parts w member)⟩
    · obtain ⟨c', cell', kind', parts'⟩ := plain.leads extended inside
      exact ⟨c', cell', kind', fun w member => .inr (parts' w member)⟩

end Data

end Store

namespace Shape

variable {s : Store} {P : Tree → Prop}

mutual

/-- What a shape shows is everywhere as what it takes, and as its own lists and mappings. -/
theorem Takes.everywhere_tree (list : ∀ items, P (.list items)) (tuple : ∀ items, P (.tuple items))
    (map : ∀ entries, P (.map entries)) : {shape : Shape} →
      shape.Takes (fun v => (s.unfold v).Everywhere P) (fun v => (s.unfold v).Everywhere P) →
      (shape.tree s).Everywhere P
  | .value _, takes => takes.shared_value
  | .copy _, takes => takes.copied_copy
  | .list _, takes =>
    Tree.everywhere_list.mpr ⟨list _, AllTake.everywhere_tree list tuple map takes.of_list⟩
  | .tuple _, takes =>
    Tree.everywhere_tuple.mpr ⟨tuple _, AllTake.everywhere_tree list tuple map takes.of_tuple⟩
  | .map _, takes =>
    Tree.everywhere_map.mpr ⟨map _, EntriesTake.everywhere_tree list tuple map takes.of_map⟩

theorem AllTake.everywhere_tree (list : ∀ items, P (.list items))
    (tuple : ∀ items, P (.tuple items)) (map : ∀ entries, P (.map entries)) :
    {shapes : List Shape} →
      AllTake (fun v => (s.unfold v).Everywhere P) (fun v => (s.unfold v).Everywhere P) shapes →
      ∀ t ∈ treeAll s shapes, t.Everywhere P
  | [], _ => List.forall_mem_nil _
  | _ :: _, takes => List.forall_mem_cons.mpr
    ⟨Takes.everywhere_tree list tuple map takes.head,
      AllTake.everywhere_tree list tuple map takes.tail⟩

theorem EntriesTake.everywhere_tree (list : ∀ items, P (.list items))
    (tuple : ∀ items, P (.tuple items)) (map : ∀ entries, P (.map entries)) :
    {entries : List (Value × Shape)} →
      EntriesTake (fun v => (s.unfold v).Everywhere P) (fun v => (s.unfold v).Everywhere P) entries →
      ∀ e ∈ treeEntries s entries, e.1.Everywhere P ∧ e.2.Everywhere P
  | [], _ => List.forall_mem_nil _
  | _ :: _, takes => List.forall_mem_cons.mpr
    ⟨⟨takes.key, Takes.everywhere_tree list tuple map takes.head⟩,
      EntriesTake.everywhere_tree list tuple map takes.tail⟩

end

end Shape

end SwaggerDoc
