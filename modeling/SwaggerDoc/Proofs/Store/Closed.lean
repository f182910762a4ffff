import SwaggerDoc.Proofs.Store.Extension
import SwaggerDoc.Proofs.Store.ShapeValues

/-!
Stores in which every value leads somewhere.

A value is held by a store if the place that it points to, if any, is filled. A closed store holds
every value that lies in it. Filling a place with held values keeps a store closed, and so do
replacing what lies at a place, giving an attribute to a model, copying and placing.
-/

namespace SwaggerDoc

namespace Store

/-- The place that the value points to, if any, is filled. -/
def Holds (s : Store) (v : Value) : Prop := ∀ p, v.place? = some p → p < s.size

/-- Every value that lies in the store is held, and attributes are given to filled places only. -/
structure Closed (s : Store) : Prop where
  holds_part : ∀ {p c}, s.cell? p = some c → ∀ v ∈ c.parts, s.Holds v
  holds_given : ∀ g ∈ s.given, g.model < s.size ∧ s.Holds g.value

@[simp] theorem holds_scalar (s : Store) (x : Scalar) : s.Holds (.scalar x) := nofun

@[simp] theorem holds_ref {s : Store} {p : Place} : s.Holds (.ref p) ↔ p < s.size :=
  ⟨fun held => held p rfl, fun filled _ same => Option.some.inj same ▸ filled⟩

theorem holds_of_places {s : Store} {values : List Value}
    (filled : ∀ p ∈ values.filterMap Value.place?, p < s.size) : ∀ v ∈ values, s.Holds v :=
  fun v member p points => filled p (List.mem_filterMap.mpr ⟨v, member, points⟩)

theorem Holds.of_deref? {s : Store} {v : Value} {c : Cell} (cell : s.deref? v = some c) :
    s.Holds v := by
  cases v with
  | scalar x => exact s.holds_scalar x
  | ref p => exact holds_ref.mpr (lt_size_of_cell? cell)

theorem Holds.of_le {s t : Store} {v : Value} (held : s.Holds v) (size_le : s.size ≤ t.size) :
    t.Holds v :=
  fun p same => Nat.lt_of_lt_of_le (held p same) size_le

theorem Holds.mono {s t : Store} {v : Value} (held : s.Holds v) (extends' : s.Extends t) :
    t.Holds v :=
  held.of_le extends'.size_le

/-- What is held points to the same in a store that has more. -/
theorem Extends.deref?_eq {s t : Store} (extends' : s.Extends t) {v : Value} (held : s.Holds v) :
    t.deref? v = s.deref? v := by
  cases v with
  | scalar x => rfl
  | ref p => exact extends'.cell?_eq p (holds_ref.mp held)

theorem closed_empty : Closed empty where
  holds_part cell := absurd (lt_size_of_cell? cell) (Nat.not_lt_zero _)
  holds_given := nofun

theorem closed_of_cells {s : Store} (ungiven : s.given = [])
    (filled : ∀ c ∈ s.cells.toList, ∀ p ∈ c.parts.filterMap Value.place?, p < s.size) :
    s.Closed where
  holds_part cell := holds_of_places (filled _ (Array.mem_toList_iff.mpr (Array.mem_of_getElem? cell)))
  holds_given := by
    rw [ungiven]
    exact nofun

theorem Closed.holds_parts_of_deref? {s : Store} (closed : s.Closed) {v : Value} {c : Cell}
    (cell : s.deref? v = some c) : ∀ w ∈ c.parts, s.Holds w := by
  cases v with
  | scalar x => cases cell
  | ref p => exact closed.holds_part cell

/-- The same lies in both stores where the values point to, all the way down. -/
structure Keeps (s t : Store) (values : Value → Prop) : Prop where
  deref?_eq : ∀ {v}, values v → t.deref? v = s.deref? v
  parts : ∀ {v c}, values v → s.deref? v = some c → ∀ w ∈ c.parts, values w

theorem Keeps.deref?_of_some {s t : Store} {values : Value → Prop} (keeps : s.Keeps t values)
    {v : Value} {c : Cell} (inside : values v) (cell : s.deref? v = some c) :
    t.deref? v = some c :=
  (keeps.deref?_eq inside).trans cell

/-- What extends a closed store keeps all that it holds. -/
theorem Closed.keeps_of_extends {s t : Store} (closed : s.Closed) (extends' : s.Extends t) :
    s.Keeps t s.Holds where
  deref?_eq held := extends'.deref?_eq held
  parts _ cell := closed.holds_parts_of_deref? cell

theorem mem_givenTo {s : Store} {p : Place} {given : Text × Value} :
    given ∈ s.givenTo p ↔ ⟨p, given.1, given.2⟩ ∈ s.given := by
  simp only [givenTo, List.mem_map, List.mem_filter, beq_iff_eq]
  constructor
  · rintro ⟨g, ⟨member, rfl⟩, rfl⟩
    exact member
  · intro member
    exact ⟨_, ⟨member, rfl⟩, rfl⟩

theorem Closed.holds_partsAt {s : Store} (closed : s.Closed) {p : Place} {v : Value}
    (part : v ∈ s.partsAt p) : s.Holds v := by
  rcases List.mem_append.mp part with inside | given
  · cases cell : s.cell? p with
    | none => simp [cell] at inside
    | some c =>
      rw [cell] at inside
      exact closed.holds_part cell v inside
  · obtain ⟨named, member, rfl⟩ := List.mem_map.mp given
    exact (closed.holds_given _ (mem_givenTo.mp member)).2

theorem Closed.lt_size_of_linksFrom {s : Store} (closed : s.Closed) {p q : Place}
    (link : q ∈ s.linksFrom p) : q < s.size := by
  obtain ⟨v, part, points⟩ := List.mem_filterMap.mp link
  exact closed.holds_partsAt part q points

/-- The attributes that all models of a kind have are the parts of their cells. -/
theorem mem_parts_of_attributes? {c : Cell} {attributes : List (Text × Value)} {name : Text}
    {w : Value} (model : c.attributes? = some attributes) (member : (name, w) ∈ attributes) :
    w ∈ c.parts := by
  cases c with
  | field f =>
    obtain rfl := Option.some.inj model
    exact (List.of_mem_zip member).2
  | resource r =>
    obtain rfl := Option.some.inj model
    exact (List.of_mem_zip member).2
  | schema fields =>
    obtain rfl := Option.some.inj model
    rw [List.mem_singleton] at member
    rw [(Prod.mk.inj member).2]
    exact List.mem_singleton_self fields
  | _ => cases model

theorem isTuple_of_attributes? {c : Cell} (model : c.attributes?.isSome = true) :
    c.isTuple = false := by
  cases c <;> first | rfl | cases model

/-- An attribute of a model is a part of its cell, or the model has been given it. -/
theorem mem_of_attributes? {s : Store} {p : Place} {attributes : List (Text × Value)}
    {e : Text × Value} (found : s.attributes? p = some attributes) (member : e ∈ attributes) :
    ∃ c, s.cell? p = some c ∧ c.isTuple = false ∧ (e.2 ∈ c.parts ∨ e ∈ s.givenTo p) := by
  cases cell : s.cell? p with
  | none => simp [attributes?, cell] at found
  | some c =>
    cases model : c.attributes? with
    | none => simp [attributes?, cell, model] at found
    | some own =>
      simp only [attributes?, cell, model, bind, Option.bind_some, pure, Option.some.injEq] at found
      subst found
      refine ⟨c, rfl, isTuple_of_attributes? (by simp [model]), ?_⟩
      exact (List.mem_append.mp member).imp_left (mem_parts_of_attributes? model)

/-! ## Filling and replacing -/

theorem cell?_of_ge {s : Store} {p : Place} (unfilled : s.size ≤ p) : s.cell? p = none :=
  Array.getElem?_eq_none unfilled

theorem cell?_alloc_eq_some {s : Store} {c d : Cell} {p : Place}
    (cell : (s.alloc c).2.cell? p = some d) : s.cell? p = some d ∨ p = s.size ∧ d = c := by
  rcases Nat.lt_trichotomy p s.size with before | rfl | behind
  · exact .inl ((cell?_alloc_of_lt before).symm.trans cell)
  · exact .inr ⟨rfl, (Option.some.inj ((cell?_alloc_self s c).symm.trans cell)).symm⟩
  · have bound := lt_size_of_cell? cell
    rw [size_alloc] at bound
    exact absurd behind (Nat.not_lt_of_le (Nat.le_of_lt_succ bound))

theorem Closed.alloc {s : Store} (closed : s.Closed) {c : Cell} (held : ∀ v ∈ c.parts, s.Holds v) :
    (s.alloc c).2.Closed where
  holds_part cell v part := by
    have extends' := s.extends_alloc c
    rcases cell?_alloc_eq_some cell with before | ⟨-, rfl⟩
    · exact (closed.holds_part before v part).mono extends'
    · exact (held v part).mono extends'
  holds_given g member := by
    have extends' := s.extends_alloc c
    obtain ⟨filled, value⟩ := closed.holds_given g member
    exact ⟨Nat.lt_of_lt_of_le filled extends'.size_le, value.mono extends'⟩

theorem holds_alloc (s : Store) (c : Cell) : (s.alloc c).2.Holds (s.alloc c).1 :=
  .of_deref? (s.deref?_alloc c)

theorem cell?_write_eq_some {s : Store} {c d : Cell} {p q : Place}
    (cell : (s.write p c).cell? q = some d) : s.cell? q = some d ∨ q = p ∧ d = c := by
  by_cases same : q = p
  · subst same
    simp only [cell?, write, Array.getElem?_setIfInBounds] at cell
    split at cell
    · split at cell
      · exact .inr ⟨rfl, (Option.some.inj cell).symm⟩
      · cases cell
    · exact .inl cell
  · exact .inl ((cell?_write_of_ne same).symm.trans cell)

theorem Closed.write {s : Store} (closed : s.Closed) {c : Cell} (p : Place)
    (held : ∀ v ∈ c.parts, s.Holds v) : (s.write p c).Closed where
  holds_part cell v part := by
    rcases cell?_write_eq_some cell with before | ⟨-, rfl⟩
    · exact (closed.holds_part before v part).of_le (by simp)
    · exact (held v part).of_le (by simp)
  holds_given g member := by
    obtain ⟨filled, value⟩ := closed.holds_given g member
    exact ⟨by simpa using filled, value.of_le (by simp)⟩

theorem mem_given_give {s : Store} {p : Place} {name : Text} {v : Value} {g : GivenAttribute}
    (member : g ∈ (s.give p name v).given) : g ∈ s.given ∨ g = ⟨p, name, v⟩ := by
  rcases List.mem_append.mp member with before | added
  · exact .inl ((List.mem_filter.mp before).1)
  · exact .inr (List.mem_singleton.mp added)

theorem Closed.give {s : Store} (closed : s.Closed) {p : Place} (name : Text) {v : Value}
    (filled : p < s.size) (held : s.Holds v) : (s.give p name v).Closed where
  holds_part cell := closed.holds_part cell
  holds_given g member := by
    rcases mem_given_give member with before | rfl
    · exact closed.holds_given g before
    · exact ⟨filled, held⟩

theorem Closed.number {s : Store} (closed : s.Closed) (f : Binary64) : (s.number f).2.Closed := by
  cases f with
  | nan label => exact ⟨closed.holds_part, closed.holds_given⟩
  | _ => exact closed

/-! ## Copying -/

end Store

@[simp] theorem Value.place?_moved (move : Place → Place) (v : Value) :
    (v.moved move).place? = v.place?.map move := by
  cases v <;> rfl

/-- The parts of a moved cell are its parts moved. -/
theorem Cell.parts_moved (move : Place → Place) (c : Cell) :
    (c.moved move).parts = c.parts.map (Value.moved move) := by
  cases c with
  | map entries => simp [Cell.moved, Cell.parts, List.flatMap_map, List.map_flatMap]
  | _ => rfl

/-- What holds of the keys and values of a mapping holds of its parts. -/
theorem Cell.forall_mem_parts_map {holds : Value → Prop} {entries : List (Value × Value)}
    (inside : ∀ e ∈ entries, holds e.1 ∧ holds e.2) : ∀ v ∈ (Cell.map entries).parts, holds v := by
  intro v part
  obtain ⟨e, member, part⟩ := List.mem_flatMap.mp part
  obtain ⟨key, value⟩ := inside e member
  rcases List.mem_cons.mp part with rfl | part
  · exact key
  · rw [List.mem_singleton.mp part]
    exact value

namespace Store

theorem relocation_lt {s : Store} {places : List Place} {p : Place} (filled : p < s.size) :
    s.relocation places p < s.size + places.length := by
  by_cases copied : p ∈ places
  · obtain ⟨n, bound, moved, -⟩ := relocation_of_mem (s := s) copied
    rw [moved]
    exact Nat.add_lt_add_left bound _
  · rw [relocation_of_not_mem copied]
    exact Nat.lt_of_lt_of_le filled (Nat.le_add_right _ _)

theorem size_copy (s : Store) (v : Value) : (s.copy v).2.size = s.size + (s.copied v).length := by
  simp [copy, size, movedCells]

theorem cell?_copy_of_lt {s : Store} {v : Value} {p : Place} (filled : p < s.size) :
    (s.copy v).2.cell? p = s.cell? p :=
  (s.extends_copy v).cell?_eq p filled

/-- What lies at the new places of a copy. -/
theorem cell?_copy_add {s : Store} {v : Value} (n : Nat) :
    (s.copy v).2.cell? (s.size + n) = (s.copied v)[n]?.map fun p =>
      ((s.cell? p).getD .object).moved (s.relocation (s.copied v)) := by
  simp [copy, cell?, size, movedCells, Array.getElem?_append_right]

theorem Holds.moved {s : Store} {v w : Value} (held : s.Holds w) :
    (s.copy v).2.Holds (w.moved (s.relocation (s.copied v))) := by
  intro p points
  rw [Value.place?_moved] at points
  obtain ⟨q, source, rfl⟩ := Option.map_eq_some_iff.mp points
  rw [size_copy]
  exact relocation_lt (held q source)

theorem holds_copy {s : Store} {v : Value} (held : s.Holds v) :
    (s.copy v).2.Holds (s.copy v).1 :=
  held.moved

theorem Closed.copy {s : Store} (closed : s.Closed) (v : Value) : (s.copy v).2.Closed where
  holds_part {p c} cell w part := by
    by_cases filled : p < s.size
    · rw [cell?_copy_of_lt filled] at cell
      exact (closed.holds_part cell w part).mono (s.extends_copy v)
    · obtain ⟨n, rfl⟩ := Nat.exists_eq_add_of_le (Nat.le_of_not_lt filled)
      obtain ⟨q, -, rfl⟩ := Option.map_eq_some_iff.mp ((cell?_copy_add n).symm.trans cell)
      rw [Cell.parts_moved] at part
      obtain ⟨u, inside, rfl⟩ := List.mem_map.mp part
      cases original : s.cell? q with
      | none => simp [original, Cell.parts] at inside
      | some d =>
        rw [original] at inside
        exact (closed.holds_part original u inside).moved
  holds_given g member := by
    rcases List.mem_append.mp member with before | added
    · obtain ⟨filled, value⟩ := closed.holds_given g before
      exact ⟨Nat.lt_of_lt_of_le filled (s.extends_copy v).size_le, value.mono (s.extends_copy v)⟩
    · obtain ⟨q, -, named⟩ := List.mem_flatMap.mp added
      obtain ⟨⟨name, w⟩, given, rfl⟩ := List.mem_map.mp named
      obtain ⟨filled, value⟩ := closed.holds_given _ (mem_givenTo.mp given)
      exact ⟨by rw [size_copy]; exact relocation_lt filled, value.moved⟩

end Store

/-! ## Placing -/

namespace Shape

/-- The store holds every value that comes into the shape. -/
abbrev HeldBy (s : Store) (shape : Shape) : Prop := shape.Takes s.Holds s.Holds

/-- The store holds every value that comes into the shapes. -/
abbrev AllHeldBy (s : Store) (shapes : List Shape) : Prop := AllTake s.Holds s.Holds shapes

/-- The store holds every value that comes into the entries. -/
abbrev EntriesHeldBy (s : Store) (entries : List (Value × Shape)) : Prop :=
  EntriesTake s.Holds s.Holds entries

section Held

variable {s t : Store}

theorem Takes.mono {shape : Shape} (held : shape.HeldBy s) (extends' : s.Extends t) :
    shape.HeldBy t :=
  held.imp (fun _ known => known.mono extends') fun _ known => known.mono extends'

theorem AllTake.mono {shapes : List Shape} (held : AllHeldBy s shapes) (extends' : s.Extends t) :
    AllHeldBy t shapes :=
  held.imp (fun _ known => known.mono extends') fun _ known => known.mono extends'

theorem EntriesTake.mono {entries : List (Value × Shape)} (held : EntriesHeldBy s entries)
    (extends' : s.Extends t) : EntriesHeldBy t entries :=
  held.imp (fun _ known => known.mono extends') fun _ known => known.mono extends'

end Held

mutual

/-- Placing a shape keeps a store closed, and the store holds what was placed. -/
theorem closed_place {s : Store} (closed : s.Closed) :
    {shape : Shape} → shape.HeldBy s →
      (shape.place s).2.Closed ∧ (shape.place s).2.Holds (shape.place s).1
  | .value v, held => ⟨closed, held.shared_value⟩
  | .copy v, held => ⟨closed.copy v, Store.holds_copy (held.copied_copy)⟩
  | .list items, held => by
    obtain ⟨closed', inside⟩ := closed_placeAll closed held.of_list
    exact ⟨closed'.alloc inside, Store.holds_alloc _ _⟩
  | .tuple items, held => by
    obtain ⟨closed', inside⟩ := closed_placeAll closed held.of_tuple
    exact ⟨closed'.alloc inside, Store.holds_alloc _ _⟩
  | .map entries, held => by
    obtain ⟨closed', inside⟩ := closed_placeEntries closed held.of_map
    exact ⟨closed'.alloc (Cell.forall_mem_parts_map inside), Store.holds_alloc _ _⟩

theorem closed_placeAll {s : Store} (closed : s.Closed) :
    {shapes : List Shape} → AllHeldBy s shapes →
      (placeAll s shapes).2.Closed ∧ ∀ v ∈ (placeAll s shapes).1, (placeAll s shapes).2.Holds v
  | [], _ => ⟨closed, nofun⟩
  | shape :: rest, held => by
    obtain ⟨closed', first⟩ := closed_place closed held.head
    obtain ⟨closed'', others⟩ := closed_placeAll closed' (held.tail.mono (extends_place shape s))
    refine ⟨closed'', fun v member => ?_⟩
    rcases List.mem_cons.mp member with rfl | member
    · exact first.mono (extends_placeAll rest _)
    · exact others v member

theorem closed_placeEntries {s : Store} (closed : s.Closed) :
    {entries : List (Value × Shape)} → EntriesHeldBy s entries →
      (placeEntries s entries).2.Closed ∧
        ∀ e ∈ (placeEntries s entries).1,
          (placeEntries s entries).2.Holds e.1 ∧ (placeEntries s entries).2.Holds e.2
  | [], _ => ⟨closed, nofun⟩
  | (key, shape) :: rest, held => by
    obtain ⟨closed', first⟩ := closed_place closed held.head
    obtain ⟨closed'', others⟩ :=
      closed_placeEntries closed' (held.tail.mono (extends_place shape s))
    refine ⟨closed'', fun e member => ?_⟩
    have later := extends_placeEntries rest (shape.place s).2
    rcases List.mem_cons.mp member with rfl | member
    · exact ⟨held.key.mono ((extends_place shape s).trans later), first.mono later⟩
    · exact others e member

end

end Shape

end SwaggerDoc
