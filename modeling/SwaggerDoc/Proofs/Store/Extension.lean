import SwaggerDoc.Shape

/-!
Stores that grow.

Placing and copying fill new places and leave the filled ones as they are. `Extends` says so of two
stores; what a place held in the first it holds in the second.
-/

namespace SwaggerDoc

namespace Store

/-- The second store has all that the first has, at the same places. -/
structure Extends (s t : Store) : Prop where
  size_le : s.size ≤ t.size
  cell?_eq : ∀ p < s.size, t.cell? p = s.cell? p
  givenTo_eq : ∀ p < s.size, t.givenTo p = s.givenTo p

theorem Extends.refl (s : Store) : s.Extends s := ⟨Nat.le_refl _, fun _ _ => rfl, fun _ _ => rfl⟩

theorem Extends.trans {s t u : Store} (left : s.Extends t) (right : t.Extends u) :
    s.Extends u where
  size_le := Nat.le_trans left.size_le right.size_le
  cell?_eq p filled :=
    (right.cell?_eq p (Nat.lt_of_lt_of_le filled left.size_le)).trans (left.cell?_eq p filled)
  givenTo_eq p filled :=
    (right.givenTo_eq p (Nat.lt_of_lt_of_le filled left.size_le)).trans (left.givenTo_eq p filled)

theorem Extends.cell?_of_some {s t : Store} (extends' : s.Extends t) {p : Place} {c : Cell}
    (cell : s.cell? p = some c) : t.cell? p = some c :=
  (extends'.cell?_eq p (lt_size_of_cell? cell)).trans cell

theorem Extends.deref?_of_some {s t : Store} (extends' : s.Extends t) {v : Value} {c : Cell}
    (cell : s.deref? v = some c) : t.deref? v = some c := by
  cases v with
  | scalar x => cases cell
  | ref p => exact extends'.cell?_of_some cell

theorem extends_alloc (s : Store) (c : Cell) : s.Extends (s.alloc c).2 where
  size_le := by simp
  cell?_eq _ filled := cell?_alloc_of_lt filled
  givenTo_eq _ _ := rfl

theorem deref?_alloc (s : Store) (c : Cell) : (s.alloc c).2.deref? (s.alloc c).1 = some c :=
  cell?_alloc_self s c

/-! ## Copies lie behind the filled places -/

theorem relocation_of_mem {s : Store} {places : List Place} {p : Place} (member : p ∈ places) :
    ∃ n < places.length, s.relocation places p = s.size + n ∧ places[n]? = some p := by
  have found : (places.idxOf? p).isSome := by simpa [List.isSome_idxOf?] using member
  obtain ⟨n, index⟩ := Option.isSome_iff_exists.mp found
  obtain ⟨bound, same, -⟩ := List.idxOf?_eq_some_iff.mp index
  refine ⟨n, bound, by simp [relocation, index], ?_⟩
  simpa [bound] using same

theorem relocation_of_not_mem {s : Store} {places : List Place} {p : Place}
    (other : p ∉ places) : s.relocation places p = p := by
  have none : places.idxOf? p = none := by simpa using other
  simp [relocation, none]

theorem le_model_of_mem_movedGiven {s : Store} {places : List Place} {g : GivenAttribute}
    (member : g ∈ s.movedGiven places) : s.size ≤ g.model := by
  obtain ⟨p, copied, member⟩ := List.mem_flatMap.mp member
  obtain ⟨given, -, rfl⟩ := List.mem_map.mp member
  obtain ⟨n, -, moved, -⟩ := relocation_of_mem (s := s) copied
  simp only [moved]
  omega

theorem extends_copy (s : Store) (v : Value) : s.Extends (s.copy v).2 where
  size_le := by simp [copy, size]
  cell?_eq p filled := by
    simp only [copy, cell?]
    exact Array.getElem?_append_left filled
  givenTo_eq p filled := by
    have none : (s.movedGiven (s.copied v)).filter (·.model == p) = [] := by
      rw [List.filter_eq_nil_iff]
      intro g member
      have := le_model_of_mem_movedGiven member
      simp only [beq_iff_eq]
      omega
    simp only [copy, givenTo, List.filter_append, none, List.append_nil]

end Store

/-! ## Placing shapes -/

namespace Shape

mutual

theorem extends_place : (shape : Shape) → (s : Store) → s.Extends (shape.place s).2
  | .value _, s => Store.Extends.refl s
  | .copy v, s => s.extends_copy v
  | .list items, s => (extends_placeAll items s).trans (Store.extends_alloc _ _)
  | .tuple items, s => (extends_placeAll items s).trans (Store.extends_alloc _ _)
  | .map entries, s => (extends_placeEntries entries s).trans (Store.extends_alloc _ _)

theorem extends_placeAll : (shapes : List Shape) → (s : Store) → s.Extends (placeAll s shapes).2
  | [], s => Store.Extends.refl s
  | shape :: rest, s => (extends_place shape s).trans (extends_placeAll rest _)

theorem extends_placeEntries :
    (entries : List (Value × Shape)) → (s : Store) → s.Extends (placeEntries s entries).2
  | [], s => Store.Extends.refl s
  | (_, shape) :: rest, s => (extends_place shape s).trans (extends_placeEntries rest _)

end

mutual

/-- The store holds the shape where the value points to, with some copy wherever it asks for
one. -/
def StandsAt (t : Store) : Shape → Value → Prop
  | .value w, v => v = w
  | .copy w, v => ∃ move, v = w.moved move
  | .list items, v => ∃ values, t.deref? v = some (.list values) ∧ AllStandAt t items values
  | .tuple items, v => ∃ values, t.deref? v = some (.tuple values) ∧ AllStandAt t items values
  | .map entries, v => ∃ values, t.deref? v = some (.map values) ∧ EntriesStandAt t entries values

/-- The store holds the shapes in order. -/
def AllStandAt (t : Store) : List Shape → List Value → Prop
  | [], values => values = []
  | shape :: rest, values =>
    ∃ v later, values = v :: later ∧ shape.StandsAt t v ∧ AllStandAt t rest later

/-- The store holds the shapes in order, each under its key. -/
def EntriesStandAt (t : Store) : List (Value × Shape) → List (Value × Value) → Prop
  | [], values => values = []
  | (key, shape) :: rest, values =>
    ∃ v later, values = (key, v) :: later ∧ shape.StandsAt t v ∧ EntriesStandAt t rest later

end

mutual

theorem StandsAt.mono {s t : Store} (extends' : s.Extends t) :
    {shape : Shape} → {v : Value} → shape.StandsAt s v → shape.StandsAt t v
  | .value _, _, stands => stands
  | .copy _, _, stands => stands
  | .list _, _, ⟨values, cell, all⟩ =>
    ⟨values, extends'.deref?_of_some cell, AllStandAt.mono extends' all⟩
  | .tuple _, _, ⟨values, cell, all⟩ =>
    ⟨values, extends'.deref?_of_some cell, AllStandAt.mono extends' all⟩
  | .map _, _, ⟨values, cell, all⟩ =>
    ⟨values, extends'.deref?_of_some cell, EntriesStandAt.mono extends' all⟩

theorem AllStandAt.mono {s t : Store} (extends' : s.Extends t) :
    {shapes : List Shape} → {values : List Value} →
      AllStandAt s shapes values → AllStandAt t shapes values
  | [], _, all => all
  | _ :: _, _, ⟨v, later, same, stands, all⟩ =>
    ⟨v, later, same, StandsAt.mono extends' stands, AllStandAt.mono extends' all⟩

theorem EntriesStandAt.mono {s t : Store} (extends' : s.Extends t) :
    {entries : List (Value × Shape)} → {values : List (Value × Value)} →
      EntriesStandAt s entries values → EntriesStandAt t entries values
  | [], _, all => all
  | (_, _) :: _, _, ⟨v, later, same, stands, all⟩ =>
    ⟨v, later, same, StandsAt.mono extends' stands, EntriesStandAt.mono extends' all⟩

end

mutual

/-- A shape stands where it is placed. -/
theorem standsAt_place :
    (shape : Shape) → (s : Store) → shape.StandsAt (shape.place s).2 (shape.place s).1
  | .value _, _ => rfl
  | .copy _, _ => ⟨_, rfl⟩
  | .list items, s => ⟨(placeAll s items).1, Store.deref?_alloc _ _,
      (allStandAt_placeAll items s).mono (Store.extends_alloc _ _)⟩
  | .tuple items, s => ⟨(placeAll s items).1, Store.deref?_alloc _ _,
      (allStandAt_placeAll items s).mono (Store.extends_alloc _ _)⟩
  | .map entries, s => ⟨(placeEntries s entries).1, Store.deref?_alloc _ _,
      (entriesStandAt_placeEntries entries s).mono (Store.extends_alloc _ _)⟩

theorem allStandAt_placeAll : (shapes : List Shape) → (s : Store) →
    AllStandAt (placeAll s shapes).2 shapes (placeAll s shapes).1
  | [], _ => rfl
  | shape :: rest, s => ⟨(shape.place s).1, (placeAll (shape.place s).2 rest).1, rfl,
      (standsAt_place shape s).mono (extends_placeAll rest _), allStandAt_placeAll rest _⟩

theorem entriesStandAt_placeEntries : (entries : List (Value × Shape)) → (s : Store) →
    EntriesStandAt (placeEntries s entries).2 entries (placeEntries s entries).1
  | [], _ => rfl
  | (_, shape) :: rest, s => ⟨(shape.place s).1, (placeEntries (shape.place s).2 rest).1, rfl,
      (standsAt_place shape s).mono (extends_placeEntries rest _),
      entriesStandAt_placeEntries rest _⟩

end

end Shape

end SwaggerDoc
