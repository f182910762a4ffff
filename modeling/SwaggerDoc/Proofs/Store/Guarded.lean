import SwaggerDoc.Proofs.Session.Edited
import SwaggerDoc.Proofs.Store.Reached

/-!
Stores that are guarded against changes of what came later.

A store is guarded by an earlier one if it has all that was there, and whatever lies at a later
place leads to later places again or to tuples that nothing can change. Then no change that starts
from a later place comes to an earlier one. Copying and placing keep the guard up, and so does every
change at a later place.
-/

namespace SwaggerDoc

namespace Store

variable {s t : Store} {n : Nat}

/-- The value does not point in front of the place, except to what is rigid. -/
def Apart (t : Store) (n : Nat) (v : Value) : Prop :=
  ∀ p, v.place? = some p → n ≤ p ∨ t.IsRigid p

@[simp] theorem apart_scalar (t : Store) (n : Nat) (x : Scalar) : t.Apart n (.scalar x) := nofun

theorem Apart.mono {u : Store} {v : Value} (apart : t.Apart n v) (extends' : t.Extends u) :
    u.Apart n v :=
  fun p points => (apart p points).imp_right fun rigid => rigid.mono extends'

theorem Apart.of_le {m : Nat} {v : Value} (apart : t.Apart m v) (le : n ≤ m) : t.Apart n v :=
  fun p points => (apart p points).imp_left fun behind => Nat.le_trans le behind

/-- The second store has all that the first has, and nothing later in it leads to what can change
there. -/
structure Guarded (s t : Store) : Prop where
  extends' : s.Extends t
  closed : t.Closed
  apart : ∀ p, s.size ≤ p → ∀ v ∈ t.partsAt p, t.Apart s.size v

theorem partsAt_of_ge (closed : s.Closed) {p : Place} (unfilled : s.size ≤ p) :
    s.partsAt p = [] := by
  have none : s.givenTo p = [] := by
    rw [List.eq_nil_iff_forall_not_mem]
    intro given member
    have filled := (closed.holds_given _ (mem_givenTo.mp member)).1
    exact Nat.not_lt_of_le unfilled filled
  simp [partsAt, cell?_of_ge unfilled, none]

theorem Closed.guarded (closed : s.Closed) : s.Guarded s where
  extends' := .refl s
  closed := closed
  apart p unfilled v part := by
    rw [partsAt_of_ge closed unfilled] at part
    cases part

/-! ## What is apart leads to what is apart -/

theorem Guarded.apart_of_leadsTo (guarded : s.Guarded t) {v w : Value}
    (apart : t.Apart s.size v) (leads : t.LeadsTo v w) : t.Apart s.size w := by
  obtain ⟨p, c, rfl, cell, part⟩ := leads
  rcases apart p rfl with behind | rigid
  · refine guarded.apart p behind w ?_
    rcases part with inside | ⟨-, given⟩
    · exact List.mem_append_left _ (by simpa [cell] using inside)
    · exact List.mem_append_right _ given
  · obtain ⟨items, tuple, parts⟩ := rigid.exists_tuple
    obtain rfl := Option.some.inj (cell.symm.trans tuple)
    rcases part with inside | ⟨plain, -⟩
    · exact fun q points => .inr (parts w inside q points)
    · cases plain

theorem Guarded.apart_of_reach (guarded : s.Guarded t) {way : Way} {v w : Value}
    (apart : t.Apart s.size v) (reached : t.reach v way = .ok w) : t.Apart s.size w :=
  reach_induction (t.apart_scalar s.size) (fun _ _ => guarded.apart_of_leadsTo) apart reached

/-! ## Filling new places -/

theorem partsAt_of_extends {u : Store} (extends' : t.Extends u) {p : Place} (filled : p < t.size) :
    u.partsAt p = t.partsAt p := by
  rw [partsAt, partsAt, extends'.cell?_eq p filled, extends'.givenTo_eq p filled]

/-- A store that grows stays guarded if what lies at its new places is apart. -/
theorem Guarded.of_extends {u : Store} (guarded : s.Guarded t) (extends' : t.Extends u)
    (closed : u.Closed)
    (apart : ∀ p, t.size ≤ p → ∀ v ∈ u.partsAt p, u.Apart s.size v) : s.Guarded u where
  extends' := guarded.extends'.trans extends'
  closed := closed
  apart p behind v part := by
    by_cases filled : p < t.size
    · rw [partsAt_of_extends extends' filled] at part
      exact (guarded.apart p behind v part).mono extends'
    · exact apart p (Nat.le_of_not_lt filled) v part

theorem Guarded.alloc (guarded : s.Guarded t) {c : Cell} (held : ∀ v ∈ c.parts, t.Holds v)
    (apart : ∀ v ∈ c.parts, t.Apart s.size v) : s.Guarded (t.alloc c).2 := by
  refine guarded.of_extends (t.extends_alloc c) (guarded.closed.alloc held) ?_
  intro p behind v part
  rcases List.mem_append.mp part with inside | given
  · cases cell : (t.alloc c).2.cell? p with
    | none => simp [cell] at inside
    | some d =>
      rw [cell] at inside
      rcases cell?_alloc_eq_some cell with before | ⟨-, rfl⟩
      · exact absurd (lt_size_of_cell? before) (Nat.not_lt_of_le behind)
      · exact (apart v inside).mono (t.extends_alloc d)
  · have none := partsAt_of_ge guarded.closed behind
    rw [partsAt, List.append_eq_nil_iff] at none
    have same : (t.alloc c).2.givenTo p = t.givenTo p := rfl
    rw [same, none.2] at given
    cases given

theorem Guarded.apart_alloc (guarded : s.Guarded t) (c : Cell) :
    (t.alloc c).2.Apart s.size (t.alloc c).1 := by
  intro p points
  obtain rfl := Option.some.inj points
  exact .inl guarded.extends'.size_le

/-- A copy is apart from everything. -/
theorem Closed.apart_moved (closed : t.Closed) {v w : Value}
    (inside : ∀ p, w.place? = some p → p ∈ t.reached v) :
    (t.copy v).2.Apart t.size (w.moved (t.relocation (t.copied v))) := by
  intro p points
  rw [Value.place?_moved] at points
  obtain ⟨q, source, rfl⟩ := Option.map_eq_some_iff.mp points
  by_cases copied : q ∈ t.copied v
  · obtain ⟨n, -, moved, -⟩ := relocation_of_mem (s := t) copied
    rw [moved]
    exact .inl (Nat.le_add_right _ _)
  · rw [relocation_of_not_mem copied]
    have member := inside q source
    have fixed : t.isFixed q = true := by
      by_contra loose
      exact copied (mem_copied.mpr ⟨member, by simpa using loose⟩)
    have filled := lt_size_of_mem_reached q member
    exact .inr ((closed.isRigid_of_isFixed filled fixed).mono (t.extends_copy v))

theorem Closed.apart_copy (closed : t.Closed) {v : Value} (held : t.Holds v) :
    (t.copy v).2.Apart t.size (t.copy v).1 :=
  closed.apart_moved fun p points => mem_reached_self points (held p points)

/-- What lies at the new places of a copy is the copy of a part. -/
theorem exists_of_mem_partsAt_copy {v w : Value} {p : Place} (closed : t.Closed)
    (behind : t.size ≤ p) (part : w ∈ (t.copy v).2.partsAt p) :
    ∃ q ∈ t.copied v, ∃ u ∈ t.partsAt q, w = u.moved (t.relocation (t.copied v)) := by
  rcases List.mem_append.mp part with inside | given
  · obtain ⟨n, rfl⟩ := Nat.exists_eq_add_of_le behind
    rw [cell?_copy_add] at inside
    cases index : (t.copied v)[n]? with
    | none => simp [index] at inside
    | some q =>
      rw [index, Option.map_some, Option.map_some, Option.getD_some, Cell.parts_moved] at inside
      obtain ⟨u, source, rfl⟩ := List.mem_map.mp inside
      refine ⟨q, List.mem_of_getElem? index, u, List.mem_append_left _ ?_, rfl⟩
      cases cell : t.cell? q with
      | none => simp [cell, Cell.parts] at source
      | some c => simpa [cell] using source
  · obtain ⟨⟨name, u⟩, member, rfl⟩ := List.mem_map.mp given
    rcases List.mem_append.mp (mem_givenTo.mp member) with before | added
    · exact absurd (closed.holds_given _ before).1 (Nat.not_lt_of_le behind)
    · obtain ⟨q, copied, named⟩ := List.mem_flatMap.mp added
      obtain ⟨source, attached, same⟩ := List.mem_map.mp named
      obtain ⟨-, -, rfl⟩ := GivenAttribute.mk.inj same
      have part : source.2 ∈ t.partsAt q :=
        List.mem_append_right _ (List.mem_map.mpr ⟨source, attached, rfl⟩)
      exact ⟨q, copied, source.2, part, rfl⟩

theorem Guarded.copy (guarded : s.Guarded t) (v : Value) : s.Guarded (t.copy v).2 := by
  have closed := guarded.closed
  refine guarded.of_extends (t.extends_copy v) (closed.copy v) ?_
  intro p behind w part
  obtain ⟨q, copied, u, source, rfl⟩ := exists_of_mem_partsAt_copy closed behind part
  refine (closed.apart_moved fun r points => ?_).of_le guarded.extends'.size_le
  have link : r ∈ t.linksFrom q := List.mem_filterMap.mpr ⟨u, source, points⟩
  exact mem_reached_of_link (mem_copied.mp copied).1 link (closed.lt_size_of_linksFrom link)

/-! ## Changes behind the guard -/

theorem IsRigid.editedAt {u : Store} {p q : Place} {added : List Value}
    (edited : t.EditedAt p added u) (rigid : t.IsRigid q) : u.IsRigid q := by
  refine rigid.of_tuples fun r items tuple => ?_
  cases edited with
  | write cell plain inside =>
    have different : r ≠ p := by
      rintro rfl
      obtain rfl := Option.some.inj (cell.symm.trans tuple)
      cases plain
    rw [cell?_write_of_ne different]
    exact tuple
  | give => exact tuple

theorem Apart.editedAt {u : Store} {p : Place} {added : List Value} {v : Value}
    (apart : t.Apart n v) (edited : t.EditedAt p added u) : u.Apart n v :=
  fun q points => (apart q points).imp_right fun rigid => rigid.editedAt edited

/-- What can be changed and is apart lies behind the guard. -/
theorem EditedAt.le_of_apart {u : Store} {p : Place} {added : List Value}
    (edited : t.EditedAt p added u) (apart : t.Apart n (.ref p)) : n ≤ p := by
  rcases apart p rfl with behind | rigid
  · exact behind
  · obtain ⟨items, tuple, -⟩ := rigid.exists_tuple
    cases edited with
    | write cell plain =>
      obtain rfl := Option.some.inj (cell.symm.trans tuple)
      cases plain
    | give cell plain =>
      obtain rfl := Option.some.inj (cell.symm.trans tuple)
      cases plain

theorem givenTo_give_of_ne {p q : Place} {name : Text} {v : Value} (different : q ≠ p) :
    (s.give p name v).givenTo q = s.givenTo q := by
  have last : (p == q) = false := beq_eq_false_iff_ne.mpr (Ne.symm different)
  have kept (g : GivenAttribute) :
      ((g.model == q) && (g.model != p || g.name != name)) = (g.model == q) := by
    by_cases same : g.model = q
    · simp [same, different]
    · simp [same]
  simp [give, givenTo, List.filter_append, List.filter_filter, last, kept]

theorem EditedAt.extends {u : Store} {p : Place} {added : List Value}
    (edited : t.EditedAt p added u) (extends' : s.Extends t) (behind : s.size ≤ p) :
    s.Extends u where
  size_le := by rw [edited.size_eq]; exact extends'.size_le
  cell?_eq q filled := by
    have different : q ≠ p := Nat.ne_of_lt (Nat.lt_of_lt_of_le filled behind)
    cases edited with
    | write => rw [cell?_write_of_ne different, extends'.cell?_eq q filled]
    | give => exact extends'.cell?_eq q filled
  givenTo_eq q filled := by
    have different : q ≠ p := Nat.ne_of_lt (Nat.lt_of_lt_of_le filled behind)
    cases edited with
    | write => exact extends'.givenTo_eq q filled
    | give => rw [givenTo_give_of_ne different, extends'.givenTo_eq q filled]

theorem EditedAt.mem_partsAt {u : Store} {p q : Place} {added : List Value} {v : Value}
    (edited : t.EditedAt p added u) (part : v ∈ u.partsAt q) : v ∈ t.partsAt q ∨ v ∈ added := by
  cases edited with
  | @write c d cell plain inside =>
    rcases List.mem_append.mp part with own | given
    · cases found : (t.write p d).cell? q with
      | none => simp [found] at own
      | some e =>
        rw [found] at own
        rcases cell?_write_eq_some found with before | ⟨rfl, rfl⟩
        · exact .inl (List.mem_append_left _ (by simpa [before] using own))
        · refine (inside v own).imp_left fun kept => List.mem_append_left _ ?_
          simpa [cell] using kept
    · exact .inl (List.mem_append_right _ given)
  | give cell plain new =>
    rcases List.mem_append.mp part with own | given
    · exact .inl (List.mem_append_left _ own)
    · obtain ⟨named, member, rfl⟩ := List.mem_map.mp given
      rcases mem_given_give (mem_givenTo.mp member) with before | same
      · refine .inl (List.mem_append_right _ (List.mem_map.mpr ⟨named, ?_, rfl⟩))
        exact mem_givenTo.mpr before
      · rw [(GivenAttribute.mk.inj same).2.2]
        exact .inr new

/-- A change behind the guard keeps it up if what it adds is apart. -/
theorem Guarded.editedAt {u : Store} (guarded : s.Guarded t) {p : Place} {added : List Value}
    (edited : t.EditedAt p added u) (apart : t.Apart s.size (.ref p))
    (held : ∀ v ∈ added, t.Holds v) (new : ∀ v ∈ added, t.Apart s.size v) : s.Guarded u where
  extends' := edited.extends guarded.extends' (edited.le_of_apart apart)
  closed := guarded.closed.editedAt edited held
  apart q behind v part := by
    rcases edited.mem_partsAt part with before | added
    · exact (guarded.apart q behind v before).editedAt edited
    · exact (new v added).editedAt edited

end Store

/-! ## Placing behind the guard -/

namespace Shape

mutual

/-- What is placed is apart if the values that come in as they are are apart. -/
theorem guarded_place {s t : Store} (guarded : s.Guarded t) :
    {shape : Shape} → shape.HeldBy t → (∀ v ∈ shape.shared, t.Apart s.size v) →
      s.Guarded (shape.place t).2 ∧ (shape.place t).2.Apart s.size (shape.place t).1
  | .value v, _, apart => ⟨guarded, apart v (List.mem_singleton_self v)⟩
  | .copy v, held, _ => by
    have source : t.Holds v := held.copied_copy
    exact ⟨guarded.copy v, (guarded.closed.apart_copy source).of_le guarded.extends'.size_le⟩
  | .list items, held, apart => by
    obtain ⟨guarded', inside⟩ := guarded_placeAll guarded held.of_list apart
    obtain ⟨-, heldItems⟩ := closed_placeAll guarded.closed held.of_list
    exact ⟨guarded'.alloc heldItems inside, guarded'.apart_alloc _⟩
  | .tuple items, held, apart => by
    obtain ⟨guarded', inside⟩ := guarded_placeAll guarded held.of_tuple apart
    obtain ⟨-, heldItems⟩ := closed_placeAll guarded.closed held.of_tuple
    exact ⟨guarded'.alloc heldItems inside, guarded'.apart_alloc _⟩
  | .map entries, held, apart => by
    obtain ⟨guarded', inside⟩ := guarded_placeEntries guarded held.of_map apart
    obtain ⟨-, heldItems⟩ := closed_placeEntries guarded.closed held.of_map
    have filled := guarded'.alloc (Cell.forall_mem_parts_map heldItems)
      (Cell.forall_mem_parts_map inside)
    exact ⟨filled, guarded'.apart_alloc _⟩

theorem guarded_placeAll {s t : Store} (guarded : s.Guarded t) :
    {shapes : List Shape} → AllHeldBy t shapes →
      (∀ v ∈ sharedInAll shapes, t.Apart s.size v) →
      s.Guarded (placeAll t shapes).2 ∧
        ∀ v ∈ (placeAll t shapes).1, (placeAll t shapes).2.Apart s.size v
  | [], _, _ => ⟨guarded, nofun⟩
  | shape :: rest, held, apart => by
    have placed := extends_place shape t
    obtain ⟨guarded', first⟩ :=
      guarded_place guarded held.head fun v member => apart v (List.mem_append_left _ member)
    obtain ⟨guarded'', others⟩ :=
      guarded_placeAll guarded' (held.tail.mono placed) fun v member =>
        (apart v (List.mem_append_right _ member)).mono placed
    refine ⟨guarded'', fun v member => ?_⟩
    rcases List.mem_cons.mp member with rfl | member
    · exact first.mono (extends_placeAll rest _)
    · exact others v member

theorem guarded_placeEntries {s t : Store} (guarded : s.Guarded t) :
    {entries : List (Value × Shape)} → EntriesHeldBy t entries →
      (∀ v ∈ sharedInEntries entries, t.Apart s.size v) →
      s.Guarded (placeEntries t entries).2 ∧
        ∀ e ∈ (placeEntries t entries).1,
          (placeEntries t entries).2.Apart s.size e.1 ∧
            (placeEntries t entries).2.Apart s.size e.2
  | [], _, _ => ⟨guarded, nofun⟩
  | (key, shape) :: rest, held, apart => by
    have placed := extends_place shape t
    have later := extends_placeEntries rest (shape.place t).2
    obtain ⟨guarded', first⟩ :=
      guarded_place guarded held.head fun v member => apart v (by simp [sharedInEntries, member])
    obtain ⟨guarded'', others⟩ :=
      guarded_placeEntries guarded' (held.tail.mono placed) fun v member =>
        (apart v (by simp [sharedInEntries, member])).mono placed
    refine ⟨guarded'', fun e member => ?_⟩
    rcases List.mem_cons.mp member with rfl | member
    · have front := apart key (by simp [sharedInEntries])
      exact ⟨front.mono (placed.trans later), first.mono later⟩
    · exact others e member

end

end Shape

end SwaggerDoc
