import Mathlib.Data.List.Perm.Subperm
import SwaggerDoc.Proofs.Store.Closed

/-!
What is reached from a value.

Rounds of widening end because each of them but the last finds a place that was not found before,
and no more places can be found than are filled. In the end nothing points out of what is found
(`mem_reached_of_link`), and it is the least such collection (`mem_of_mem_reached`).

A tuple from which nothing but tuples is reached is rigid: no assignment changes anything in it.
-/

namespace SwaggerDoc

namespace Store

variable {s : Store}

theorem mem_widened {found : List Place} {p : Place} :
    p ∈ s.widened found ↔ p < s.size ∧ (p ∈ found ∨ ∃ q ∈ found, p ∈ s.linksFrom q) := by
  simp [widened, List.mem_filter, List.contains_eq_mem]

theorem nodup_widened (found : List Place) : (s.widened found).Nodup :=
  List.nodup_range.filter _

theorem length_le_size {found : List Place} (nodup : found.Nodup)
    (filled : ∀ p ∈ found, p < s.size) : found.length ≤ s.size := by
  have inside : found ⊆ List.range s.size := fun p member => List.mem_range.mpr (filled p member)
  simpa using (List.subperm_of_subset nodup inside).length_le

theorem subperm_widened {found : List Place} (nodup : found.Nodup)
    (filled : ∀ p ∈ found, p < s.size) : found.Subperm (s.widened found) :=
  List.subperm_of_subset nodup fun p member => mem_widened.mpr ⟨filled p member, .inl member⟩

/-- A round that finds nothing new has found everything. -/
theorem mem_of_mem_widened {found : List Place} {p : Place} (nodup : found.Nodup)
    (filled : ∀ p ∈ found, p < s.size) (stopped : (s.widened found).length ≤ found.length)
    (member : p ∈ s.widened found) : p ∈ found :=
  ((subperm_widened nodup filled).perm_of_length_le stopped).mem_iff.mpr member

theorem lt_size_of_mem_spread {rounds : Nat} {found : List Place}
    (filled : ∀ p ∈ found, p < s.size) : ∀ p ∈ s.spread rounds found, p < s.size := by
  induction rounds generalizing found with
  | zero => exact filled
  | succ rounds ih =>
    simp only [spread]
    split
    · exact filled
    · exact ih fun p member => (mem_widened.mp member).1

theorem mem_spread {rounds : Nat} {found : List Place} (filled : ∀ p ∈ found, p < s.size) :
    ∀ p ∈ found, p ∈ s.spread rounds found := by
  induction rounds generalizing found with
  | zero => exact fun p member => member
  | succ rounds ih =>
    intro p member
    simp only [spread]
    split
    · exact member
    · have wider : p ∈ s.widened found := mem_widened.mpr ⟨filled p member, .inl member⟩
      exact ih (fun q member => (mem_widened.mp member).1) p wider

/-- The rounds lead into every collection that nothing points out of. -/
theorem mem_of_mem_spread {region : Place → Prop} {rounds : Nat} {found : List Place}
    (closed : ∀ p, region p → ∀ q ∈ s.linksFrom p, q < s.size → region q)
    (inside : ∀ p ∈ found, region p) : ∀ p ∈ s.spread rounds found, region p := by
  induction rounds generalizing found with
  | zero => exact inside
  | succ rounds ih =>
    simp only [spread]
    split
    · exact inside
    · refine ih fun p member => ?_
      obtain ⟨filled, before | ⟨q, before, link⟩⟩ := mem_widened.mp member
      · exact inside p before
      · exact closed q (inside q before) p link filled

/-- With as many rounds as there are places, nothing points out of what is found. -/
theorem mem_spread_of_mem_widened {rounds : Nat} {found : List Place} (nodup : found.Nodup)
    (filled : ∀ p ∈ found, p < s.size) (enough : s.size ≤ rounds + found.length) :
    ∀ p ∈ s.widened (s.spread rounds found), p ∈ s.spread rounds found := by
  induction rounds generalizing found with
  | zero =>
    intro p member
    have bound : (s.widened found).length ≤ s.size :=
      length_le_size (nodup_widened found) fun q member => (mem_widened.mp member).1
    simp only [spread] at member ⊢
    exact mem_of_mem_widened nodup filled (by omega) member
  | succ rounds ih =>
    intro p member
    simp only [spread] at member ⊢
    split at member
    · next stopped =>
      rw [if_pos stopped]
      exact mem_of_mem_widened nodup filled (Nat.le_of_eq stopped) member
    · next goes =>
      rw [if_neg goes]
      have longer := (subperm_widened nodup filled).length_le
      refine ih (nodup_widened found) (fun q member => (mem_widened.mp member).1) ?_ p member
      omega

/-! ## Reached places -/

theorem lt_size_of_mem_start {v : Value} :
    ∀ p ∈ (List.range s.size).filter (fun p => v.place? == some p), p < s.size :=
  fun _ member => List.mem_range.mp (List.mem_filter.mp member).1

theorem lt_size_of_mem_reached {v : Value} : ∀ p ∈ s.reached v, p < s.size :=
  lt_size_of_mem_spread lt_size_of_mem_start

/-- A held value reaches its own place. -/
theorem mem_reached_self {v : Value} {p : Place} (points : v.place? = some p)
    (filled : p < s.size) : p ∈ s.reached v := by
  refine mem_spread lt_size_of_mem_start p ?_
  rw [List.mem_filter, List.mem_range]
  exact ⟨filled, by simp [points]⟩

/-- Nothing points out of what is reached. -/
theorem mem_reached_of_link {v : Value} {p q : Place} (member : p ∈ s.reached v)
    (link : q ∈ s.linksFrom p) (filled : q < s.size) : q ∈ s.reached v := by
  have enough : s.size ≤ s.size +
      ((List.range s.size).filter fun p => v.place? == some p).length := by omega
  refine mem_spread_of_mem_widened (List.nodup_range.filter _) lt_size_of_mem_start enough q ?_
  exact mem_widened.mpr ⟨filled, .inr ⟨p, member, link⟩⟩

/-- What is reached lies in every collection that nothing points out of. -/
theorem mem_of_mem_reached {region : Place → Prop} {v : Value}
    (closed : ∀ p, region p → ∀ q ∈ s.linksFrom p, q < s.size → region q)
    (inside : ∀ p, v.place? = some p → region p) : ∀ p ∈ s.reached v, region p := by
  refine mem_of_mem_spread closed fun p member => ?_
  exact inside p (by simpa using (List.mem_filter.mp member).2)

/-! ## Rigid places -/

/-- There is a tuple at the place, and nothing but tuples is reached from it. -/
def IsRigid (s : Store) (p : Place) : Prop :=
  ∃ region : Place → Prop, region p ∧ ∀ q, region q →
    ∃ items, s.cell? q = some (.tuple items) ∧ ∀ v ∈ items, ∀ r, v.place? = some r → region r

theorem IsRigid.exists_tuple {p : Place} (rigid : s.IsRigid p) :
    ∃ items, s.cell? p = some (.tuple items) ∧
      ∀ v ∈ items, ∀ r, v.place? = some r → s.IsRigid r := by
  obtain ⟨region, inside, closed⟩ := rigid
  obtain ⟨items, cell, parts⟩ := closed p inside
  exact ⟨items, cell, fun v member r points => ⟨region, parts v member r points, closed⟩⟩

/-- Whatever leaves tuples as they are leaves what is rigid as it is. -/
theorem IsRigid.of_tuples {t : Store}
    (same : ∀ p items, s.cell? p = some (.tuple items) → t.cell? p = some (.tuple items))
    {p : Place} (rigid : s.IsRigid p) : t.IsRigid p := by
  obtain ⟨region, inside, closed⟩ := rigid
  refine ⟨region, inside, fun q member => ?_⟩
  obtain ⟨items, cell, parts⟩ := closed q member
  exact ⟨items, same q items cell, parts⟩

theorem IsRigid.mono {t : Store} (extends' : s.Extends t) {p : Place} (rigid : s.IsRigid p) :
    t.IsRigid p :=
  rigid.of_tuples fun _ _ cell => extends'.cell?_of_some cell

theorem mem_linksFrom_of_cell? {p q : Place} {c : Cell} {v : Value} (cell : s.cell? p = some c)
    (part : v ∈ c.parts) (points : v.place? = some q) : q ∈ s.linksFrom p := by
  refine List.mem_filterMap.mpr ⟨v, List.mem_append_left _ ?_, points⟩
  simpa [cell] using part

/-- A fixed place of a closed store is rigid. -/
theorem Closed.isRigid_of_isFixed (closed : s.Closed) {p : Place} (filled : p < s.size)
    (fixed : s.isFixed p = true) : s.IsRigid p := by
  refine ⟨(· ∈ s.reached (.ref p)), mem_reached_self rfl filled, fun q member => ?_⟩
  have tuple := List.all_eq_true.mp fixed q member
  cases cell : s.cell? q with
  | none => simp [holdsTuple, cell] at tuple
  | some c =>
    cases c with
    | tuple items =>
      refine ⟨items, rfl, fun v part r points => ?_⟩
      have link := mem_linksFrom_of_cell? cell part points
      exact mem_reached_of_link member link (closed.lt_size_of_linksFrom link)
    | _ => simp [holdsTuple, cell, Cell.isTuple] at tuple

/-- What a fixed place points to is fixed. -/
theorem Closed.isFixed_of_link (closed : s.Closed) {p q : Place} (fixed : s.isFixed p = true)
    (filled : p < s.size) (link : q ∈ s.linksFrom p) : s.isFixed q = true := by
  rw [isFixed, List.all_eq_true]
  intro r member
  refine List.all_eq_true.mp fixed r ?_
  refine mem_of_mem_reached (fun a inside b link filled => mem_reached_of_link inside link filled)
    (fun a same => ?_) r member
  obtain rfl := Option.some.inj same
  exact mem_reached_of_link (mem_reached_self rfl filled) link (closed.lt_size_of_linksFrom link)

/-! ## Copied places -/

theorem mem_copied {v : Value} {p : Place} :
    p ∈ s.copied v ↔ p ∈ s.reached v ∧ s.isFixed p = false := by
  simp [copied, List.mem_filter]

end Store

end SwaggerDoc
