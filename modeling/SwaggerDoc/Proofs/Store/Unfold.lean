import SwaggerDoc.Proofs.Store.Reached
import SwaggerDoc.Store.Tree

/-!
Values that show the same in different stores.

A store embeds in another, as far as a region goes that nothing points out of, if what lies at the
places of the region lies at other places there, with the places exchanged. A value of the region
unfolds into the same tree on both sides (`Embeds.unfold_eq`). A store embeds so in whatever extends
it, and what a value reaches embeds so in the store with its copy.
-/

namespace SwaggerDoc

theorem Value.moved_eq_self {v : Value} {move : Place → Place}
    (stays : ∀ p, v.place? = some p → move p = p) : v.moved move = v := by
  cases v with
  | scalar x => rfl
  | ref p => exact congrArg Value.ref (stays p rfl)

@[simp] theorem Value.moved_id (v : Value) : v.moved id = v := Value.moved_eq_self fun _ _ => rfl

@[simp] theorem Cell.moved_id (c : Cell) : c.moved id = c := by
  have same : Value.moved id = id := funext Value.moved_id
  cases c <;> simp [Cell.moved, FieldCell.moved, ResourceCell.moved, same]

namespace Store

variable {s t : Store} {region : Place → Prop} {move : Place → Place}

/-- What lies at the places of the region lies in the second store at other places, with the places
exchanged. -/
structure Embeds (s t : Store) (region : Place → Prop) (move : Place → Place) : Prop where
  closed : ∀ {p c}, region p → s.cell? p = some c →
    ∀ v ∈ c.parts, ∀ q, v.place? = some q → region q
  injective : ∀ p q, region p → region q → move p = move q → p = q
  cell?_eq : ∀ p, region p → t.cell? (move p) = (s.cell? p).map (Cell.moved move)

theorem Embeds.deref?_eq (embeds : Embeds s t region move) {v : Value}
    (inside : ∀ p, v.place? = some p → region p) :
    t.deref? (v.moved move) = (s.deref? v).map (Cell.moved move) := by
  cases v with
  | scalar x => rfl
  | ref p => exact embeds.cell?_eq p (inside p rfl)

theorem Embeds.idxOf?_eq (embeds : Embeds s t region move) {p : Place} (inside : region p)
    {inner outer : List Place} (within : ∀ q ∈ inner, region q) (apart : move p ∉ outer) :
    (inner.map move ++ outer).idxOf? (move p) = inner.idxOf? p := by
  induction inner with
  | nil => simpa using apart
  | cons q inner ih =>
    have later := ih fun r member => within r (List.mem_cons_of_mem q member)
    have same : (move q == move p) = (q == p) := by
      rw [Bool.eq_iff_iff, beq_iff_eq, beq_iff_eq]
      exact ⟨embeds.injective q p (within q List.mem_cons_self) inside, fun h => by rw [h]⟩
    simp only [List.map_cons, List.cons_append, List.idxOf?_cons, same, later]

section Parts

variable {f g : Value → Tree}

theorem map_moved_congr {items : List Value} (same : ∀ w ∈ items, f (w.moved move) = g w) :
    (items.map (Value.moved move)).map f = items.map g := by
  rw [List.map_map]
  exact List.map_congr_left same

theorem entries_moved_congr {entries : List (Value × Value)}
    (same : ∀ w ∈ (Cell.map entries).parts, f (w.moved move) = g w) :
    (entries.map fun e => (e.1.moved move, e.2.moved move)).map (fun e => (f e.1, f e.2)) =
      entries.map fun e => (g e.1, g e.2) := by
  rw [List.map_map]
  refine List.map_congr_left fun e member => ?_
  have key := same e.1 (List.mem_flatMap.mpr ⟨e, member, by simp⟩)
  have value := same e.2 (List.mem_flatMap.mpr ⟨e, member, by simp⟩)
  exact Prod.ext key value

end Parts

/-- A value of the region unfolds on both sides into the same tree, whatever is around it on the
second. -/
theorem Embeds.unfoldWithin_eq (embeds : Embeds s t region move) {outer : List Place}
    (apart : ∀ p, region p → move p ∉ outer) (depth : Nat) {inner : List Place} {v : Value}
    (within : ∀ p ∈ inner, region p) (inside : ∀ p, v.place? = some p → region p) :
    t.unfoldWithin depth (inner.map move ++ outer) (v.moved move) =
      s.unfoldWithin depth inner v := by
  induction depth generalizing inner v with
  | zero => cases v <;> rfl
  | succ depth ih =>
    cases v with
    | scalar x => rfl
    | ref p =>
      have filled : region p := inside p rfl
      have within' : ∀ q ∈ p :: inner, region q := List.forall_mem_cons.mpr ⟨filled, within⟩
      have part (w : Value) (lies : ∀ q, w.place? = some q → region q) :
          t.unfoldWithin depth (move p :: (inner.map move ++ outer)) (w.moved move) =
            s.unfoldWithin depth (p :: inner) w := by
        have later := ih within' lies
        exact later
      simp only [Value.moved, unfoldWithin, embeds.idxOf?_eq filled within (apart p filled),
        embeds.cell?_eq p filled]
      cases inner.idxOf? p with
      | some n => rfl
      | none =>
        cases cell : s.cell? p with
        | none => rfl
        | some c =>
          have parts := embeds.closed filled cell
          have same : ∀ w ∈ c.parts, _ := fun w member => part w (parts w member)
          cases c with
          | list items | tuple items | set items =>
            simp only [Option.map_some, Cell.moved]
            congr 1
            exact map_moved_congr same
          | map entries =>
            exact congrArg Tree.map (entries_moved_congr same)
          | field f =>
            have attributes : (f.moved move).attributes = f.attributes.map (Value.moved move) := rfl
            simp only [Option.map_some, Cell.moved, attributes]
            congr 2
            exact map_moved_congr same
          | resource r =>
            have attributes : (r.moved move).attributes = r.attributes.map (Value.moved move) := rfl
            simp only [Option.map_some, Cell.moved, attributes]
            congr 2
            exact map_moved_congr same
          | schema fields =>
            have lies := parts fields (List.mem_singleton_self fields)
            simp only [Option.map_some, Cell.moved, embeds.deref?_eq lies]
            cases entriesCell : s.deref? fields with
            | none => rfl
            | some d =>
              cases d with
              | map entries =>
                cases fields with
                | scalar x => cases entriesCell
                | ref q =>
                  have parts' := embeds.closed (lies q rfl) entriesCell
                  have same' := entries_moved_congr fun w member => part w (parts' w member)
                  exact congrArg (fun fields => Tree.schema (some fields)) same'
              | _ => rfl
          | _ => rfl

theorem Embeds.unfoldWithin_outermost (embeds : Embeds s t region move) {outer : List Place}
    (apart : ∀ p, region p → move p ∉ outer) (depth : Nat) {v : Value}
    (inside : ∀ p, v.place? = some p → region p) :
    t.unfoldWithin depth outer (v.moved move) = s.unfoldWithin depth [] v := by
  have within : ∀ p ∈ ([] : List Place), region p := nofun
  exact embeds.unfoldWithin_eq apart depth within inside

/-! ## The bound of the depth does not matter -/

theorem unfoldWithin_succ {depth : Nat} {outer : List Place} {v : Value} (nodup : outer.Nodup)
    (filled : ∀ p ∈ outer, p < s.size) (enough : s.size < depth + outer.length) :
    s.unfoldWithin (depth + 1) outer v = s.unfoldWithin depth outer v := by
  induction depth generalizing outer v with
  | zero =>
    have bound := length_le_size nodup filled
    omega
  | succ depth ih =>
    cases v with
    | scalar x => rfl
    | ref p =>
      rw [unfoldWithin, unfoldWithin]
      cases index : outer.idxOf? p with
      | some n => rfl
      | none =>
        cases cell : s.cell? p with
        | none => rfl
        | some c =>
          have fresh : p ∉ outer := by simpa using index
          have nodup' : (p :: outer).Nodup := List.nodup_cons.mpr ⟨fresh, nodup⟩
          have filled' : ∀ q ∈ p :: outer, q < s.size :=
            List.forall_mem_cons.mpr ⟨lt_size_of_cell? cell, filled⟩
          have part :
              s.unfoldWithin (depth + 1) (p :: outer) = s.unfoldWithin depth (p :: outer) := by
            funext w
            refine ih nodup' filled' ?_
            rw [List.length_cons]
            omega
          rw [part]

theorem unfoldWithin_of_lt {depth : Nat} (enough : s.size < depth) (v : Value) :
    s.unfoldWithin depth [] v = s.unfold v := by
  induction depth with
  | zero => omega
  | succ depth ih =>
    by_cases last : s.size = depth
    · rw [unfold, last]
    · have enough' : s.size < depth := by omega
      rw [unfoldWithin_succ List.nodup_nil nofun (by simpa using enough'), ih enough']

/-- A value of the region shows the same on both sides. -/
theorem Embeds.unfold_eq (embeds : Embeds s t region move) {v : Value}
    (inside : ∀ p, v.place? = some p → region p) : t.unfold (v.moved move) = s.unfold v := by
  have same : t.unfoldWithin (s.size + t.size + 1) [] (v.moved move) =
      s.unfoldWithin (s.size + t.size + 1) [] v :=
    embeds.unfoldWithin_outermost (fun _ _ => List.not_mem_nil) _ inside
  rwa [unfoldWithin_of_lt (by omega), unfoldWithin_of_lt (by omega)] at same

/-! ## Extensions -/

theorem Closed.embeds_of_extends (closed : s.Closed) (extends' : s.Extends t) :
    Embeds s t (· < s.size) id where
  closed _ cell v part q points := closed.holds_part cell v part q points
  injective _ _ _ _ same := same
  cell?_eq p filled := by
    rw [id, extends'.cell?_eq p filled]
    cases s.cell? p <;> simp

/-- What is held shows the same in a store that has more. -/
theorem Closed.unfold_of_extends (closed : s.Closed) (extends' : s.Extends t) {v : Value}
    (held : s.Holds v) : t.unfold v = s.unfold v := by
  have same := (closed.embeds_of_extends extends').unfold_eq held
  rwa [Value.moved_id] at same

/-- What is held shows the same inside a container that comes to lie at the next place. -/
theorem Closed.unfoldWithin_alloc (closed : s.Closed) (c : Cell) {v : Value} (held : s.Holds v) :
    (s.alloc c).2.unfoldWithin (s.alloc c).2.size [s.size] v = s.unfold v := by
  have embeds := closed.embeds_of_extends (s.extends_alloc c)
  have apart : ∀ p, p < s.size → id p ∉ [s.size] := by
    intro p filled member
    exact Nat.ne_of_lt filled (List.mem_singleton.mp member)
  have same : (s.alloc c).2.unfoldWithin (s.alloc c).2.size [s.size] (v.moved id) =
      s.unfoldWithin (s.alloc c).2.size [] v :=
    embeds.unfoldWithin_outermost apart _ held
  rwa [Value.moved_id, unfoldWithin_of_lt (by simp)] at same

/-- A new list shows its items as they show by themselves. -/
theorem Closed.unfold_alloc_list (closed : s.Closed) {items : List Value}
    (held : ∀ v ∈ items, s.Holds v) :
    (s.alloc (.list items)).2.unfold (s.alloc (.list items)).1 = .list (items.map s.unfold) := by
  have cell := s.cell?_alloc_self (.list items)
  have new : (s.alloc (.list items)).1 = .ref s.size := rfl
  rw [new, unfold, unfoldWithin]
  simp only [cell, List.idxOf?_nil]
  congr 1
  exact List.map_congr_left fun v member => closed.unfoldWithin_alloc _ (held v member)

/-- A new tuple shows its items as they show by themselves. -/
theorem Closed.unfold_alloc_tuple (closed : s.Closed) {items : List Value}
    (held : ∀ v ∈ items, s.Holds v) :
    (s.alloc (.tuple items)).2.unfold (s.alloc (.tuple items)).1 = .tuple (items.map s.unfold) := by
  have cell := s.cell?_alloc_self (.tuple items)
  have new : (s.alloc (.tuple items)).1 = .ref s.size := rfl
  rw [new, unfold, unfoldWithin]
  simp only [cell, List.idxOf?_nil]
  congr 1
  exact List.map_congr_left fun v member => closed.unfoldWithin_alloc _ (held v member)

/-- A new mapping shows its keys and values as they show by themselves. -/
theorem Closed.unfold_alloc_map (closed : s.Closed) {entries : List (Value × Value)}
    (held : ∀ e ∈ entries, s.Holds e.1 ∧ s.Holds e.2) :
    (s.alloc (.map entries)).2.unfold (s.alloc (.map entries)).1 =
      .map (entries.map fun e => (s.unfold e.1, s.unfold e.2)) := by
  have cell := s.cell?_alloc_self (.map entries)
  have new : (s.alloc (.map entries)).1 = .ref s.size := rfl
  rw [new, unfold, unfoldWithin]
  simp only [cell, List.idxOf?_nil]
  congr 1
  refine List.map_congr_left fun e member => ?_
  have key := closed.unfoldWithin_alloc (.map entries) (held e member).1
  have value := closed.unfoldWithin_alloc (.map entries) (held e member).2
  exact Prod.ext key value

/-! ## Copies -/

theorem relocation_injective {places : List Place} {p q : Place} (filled : p < s.size)
    (filled' : q < s.size) (same : s.relocation places p = s.relocation places q) : p = q := by
  by_cases copied : p ∈ places
  · obtain ⟨n, -, moved, index⟩ := relocation_of_mem (s := s) copied
    by_cases copied' : q ∈ places
    · obtain ⟨m, -, moved', index'⟩ := relocation_of_mem (s := s) copied'
      have position : n = m := Nat.add_left_cancel (moved.symm.trans (same.trans moved'))
      rw [position] at index
      exact Option.some.inj (index.symm.trans index')
    · rw [moved, relocation_of_not_mem copied'] at same
      exact absurd (same ▸ filled') (Nat.not_lt_of_le (Nat.le_add_right _ _))
  · rw [relocation_of_not_mem copied] at same
    by_cases copied' : q ∈ places
    · obtain ⟨m, -, moved', -⟩ := relocation_of_mem (s := s) copied'
      rw [moved'] at same
      exact absurd (same ▸ filled) (Nat.not_lt_of_le (Nat.le_add_right _ _))
    · rwa [relocation_of_not_mem copied'] at same

/-- What a value reaches lies again in the store with its copy. -/
theorem Closed.embeds_copy (closed : s.Closed) (v : Value) :
    Embeds s (s.copy v).2 (· ∈ s.reached v) (s.relocation (s.copied v)) where
  closed member cell w part q points := by
    have link := mem_linksFrom_of_cell? cell part points
    exact mem_reached_of_link member link (closed.lt_size_of_linksFrom link)
  injective p q member member' same :=
    relocation_injective (lt_size_of_mem_reached p member) (lt_size_of_mem_reached q member') same
  cell?_eq p member := by
    have filled := lt_size_of_mem_reached p member
    obtain ⟨c, cell⟩ : ∃ c, s.cell? p = some c := ⟨_, Array.getElem?_eq_getElem filled⟩
    by_cases copied : p ∈ s.copied v
    · obtain ⟨n, -, moved, index⟩ := relocation_of_mem (s := s) copied
      rw [moved, cell?_copy_add, index]
      simp [cell]
    · rw [relocation_of_not_mem copied, cell?_copy_of_lt filled, cell, Option.map_some]
      -- A place that is not copied is fixed, so it holds a tuple of what is not copied either.
      have fixed : s.isFixed p = true := by
        by_contra loose
        exact copied (mem_copied.mpr ⟨member, by simpa using loose⟩)
      obtain ⟨items, tuple, -⟩ := (closed.isRigid_of_isFixed filled fixed).exists_tuple
      obtain rfl := Option.some.inj (cell.symm.trans tuple)
      have stay : items.map (Value.moved (s.relocation (s.copied v))) = items := by
        refine (List.map_congr_left fun w part => ?_).trans (List.map_id items)
        refine Value.moved_eq_self fun q points => relocation_of_not_mem fun copied => ?_
        have link := mem_linksFrom_of_cell? cell part points
        have loose := (mem_copied.mp copied).2
        rw [closed.isFixed_of_link fixed filled link] at loose
        cases loose
      rw [Cell.moved, stay]

/-- A deep copy shows what the value shows. -/
theorem Closed.unfold_copy (closed : s.Closed) {v : Value} (held : s.Holds v) :
    (s.copy v).2.unfold (s.copy v).1 = s.unfold v :=
  (closed.embeds_copy v).unfold_eq fun p points => mem_reached_self points (held p points)

end Store

end SwaggerDoc
