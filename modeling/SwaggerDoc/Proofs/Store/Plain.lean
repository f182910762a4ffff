import SwaggerDoc.Proofs.Store.Closed

/-!
Stores of plain data.

Plain data are scalars other than type tags and methods, dates, and containers. What is allocated,
written or numbered in a store of plain data leaves one.
-/

namespace SwaggerDoc

/-- The cell is a container of values, or a date. -/
def Cell.isPlain : Cell → Bool
  | .list _ | .tuple _ | .set _ | .map _ | .date _ | .time _ => true
  | _ => false

/-- A plain scalar, or a place among the first so many. -/
def Value.IsPlain (size : Nat) : Value → Prop
  | .scalar x => x.isPlain = true
  | .ref p => p < size

namespace Store

variable {s : Store}

/-- All that lies in the store is plain data. -/
structure IsPlain (s : Store) : Prop where
  cell : ∀ {p c}, s.cell? p = some c → c.isPlain = true
  parts : ∀ {p c}, s.cell? p = some c → ∀ v ∈ c.parts, v.IsPlain s.size
  given : s.given = []

@[simp] theorem isPlain_settled (s : Store) (p : Place) (c : Cell) :
    (s.settled p c).isPlain = c.isPlain := by
  cases c <;> rfl

/-- Whatever the order of a set, its members are the same. -/
@[simp] theorem mem_parts_settled {v : Value} {p : Place} {c : Cell} :
    v ∈ (s.settled p c).parts ↔ v ∈ c.parts := by
  cases c with
  | set items => exact (s.order.perm p items).mem_iff
  | _ => exact Iff.rfl

end Store

theorem Value.IsPlain.of_le {m n : Nat} {v : Value} (plain : v.IsPlain m) (le : m ≤ n) :
    v.IsPlain n := by
  cases v with
  | scalar x => exact plain
  | ref p => exact Nat.lt_of_lt_of_le plain le

theorem Value.IsPlain.holds {s : Store} {v : Value} (plain : v.IsPlain s.size) : s.Holds v := by
  cases v with
  | scalar x => exact s.holds_scalar x
  | ref p => exact Store.holds_ref.mpr plain

/-- The value has no parts, and is no type tag and no method. -/
def Value.IsPlainScalar (v : Value) : Prop := ∃ x : Scalar, x.isPlain = true ∧ v = .scalar x

theorem Value.isPlainScalar (x : Scalar) (plain : x.isPlain = true) :
    (Value.scalar x).IsPlainScalar :=
  ⟨x, plain, rfl⟩

theorem Value.IsPlainScalar.holds {s : Store} {v : Value} (scalar : v.IsPlainScalar) : s.Holds v := by
  obtain ⟨x, -, rfl⟩ := scalar
  exact s.holds_scalar x

namespace Store.IsPlain

variable {s : Store}

theorem empty (order : SetOrder) : ({ Store.empty with order } : Store).IsPlain where
  cell cell := absurd (lt_size_of_cell? cell) (Nat.not_lt_zero _)
  parts cell := absurd (lt_size_of_cell? cell) (Nat.not_lt_zero _)
  given := rfl

theorem closed (plain : s.IsPlain) : s.Closed where
  holds_part cell v part := (plain.parts cell v part).holds
  holds_given g member := by
    rw [plain.given] at member
    cases member

theorem alloc (plain : s.IsPlain) {c : Cell} (kind : c.isPlain = true)
    (parts : ∀ v ∈ c.parts, v.IsPlain s.size) : (s.alloc c).2.IsPlain where
  cell cell := by
    rcases cell?_alloc_eq_some cell with before | ⟨-, rfl⟩
    · exact plain.cell before
    · exact kind
  parts cell v part := by
    have grown : s.size ≤ (s.alloc c).2.size := by simp
    rcases cell?_alloc_eq_some cell with before | ⟨-, rfl⟩
    · exact (plain.parts before v part).of_le grown
    · exact (parts v part).of_le grown
  given := plain.given

theorem write (plain : s.IsPlain) {c : Cell} (p : Place) (kind : c.isPlain = true)
    (parts : ∀ v ∈ c.parts, v.IsPlain s.size) : (s.write p c).IsPlain where
  cell cell := by
    rcases cell?_write_eq_some cell with before | ⟨-, rfl⟩
    · exact plain.cell before
    · exact kind
  parts cell v part := by
    have grown : s.size ≤ (s.write p c).size := by simp
    rcases cell?_write_eq_some cell with before | ⟨-, rfl⟩
    · exact (plain.parts before v part).of_le grown
    · exact (parts v part).of_le grown
  given := plain.given

theorem number (plain : s.IsPlain) (f : Binary64) :
    (s.number f).2.IsPlain ∧ s.size ≤ (s.number f).2.size ∧
      (s.number f).1.IsPlain (s.number f).2.size := by
  cases f with
  | nan label => exact ⟨⟨plain.cell, plain.parts, plain.given⟩, Nat.le_refl _, rfl⟩
  | _ => exact ⟨plain, Nat.le_refl _, rfl⟩

end Store.IsPlain

end SwaggerDoc
