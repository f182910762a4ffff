import SwaggerDoc.Proofs.Data
import SwaggerDoc.Proofs.Store.Reached
import SwaggerDoc.Yaml.Drawing

/-!
Drawings of data.

A value that stands for data, no container of which is shared, is drawn as the data say, and nothing
in the drawing refers back to something else in it (`draw_of_stands`).
-/

namespace SwaggerDoc

/-- The tag of the scalar that an atom is drawn as. -/
def Atom.tag : Atom → Yaml.NodeTag
  | .null => .null
  | .bool _ => .bool
  | .int _ => .int
  | .text _ => .string

/-- The characters of the scalar that an atom is drawn as. -/
def Atom.characters : Atom → Text
  | .null => SwaggerDoc.text "null"
  | .bool b => SwaggerDoc.text (if b then "true" else "false")
  | .int i => Text.ofInt i
  | .text t => t

/-- An atom is written, unless it is an integer of more than 4300 digits. -/
def Atom.Written : Atom → Prop
  | .int i => i.natAbs < tenTo 4300
  | _ => True

mutual

/-- All atoms are written. -/
def Data.Written : Data → Prop
  | .atom a => a.Written
  | .list items => Data.AllWritten items
  | .map entries => Data.EntriesWritten entries

/-- All atoms of all items are written. -/
def Data.AllWritten : List Data → Prop
  | [] => True
  | d :: rest => d.Written ∧ Data.AllWritten rest

/-- All atoms of all entries are written. -/
def Data.EntriesWritten : List (Text × Data) → Prop
  | [] => True
  | (_, d) :: rest => d.Written ∧ Data.EntriesWritten rest

end

namespace Yaml.Drawing

mutual

/-- A drawing shows data. -/
def Shows : Drawing → Data → Prop
  | drawing, .atom a => drawing = .scalar none a.tag a.characters false
  | drawing, .list items => ∃ place parts, drawing = .sequence place parts ∧ ShowAll parts items
  | drawing, .map entries =>
    ∃ place parts, drawing = .mapping place .mapping parts ∧ ShowEntries parts entries

/-- Drawings show data in order. -/
def ShowAll : List Drawing → List Data → Prop
  | parts, [] => parts = []
  | parts, d :: rest => ∃ first more, parts = first :: more ∧ Shows first d ∧ ShowAll more rest

/-- Drawn entries show the entries of a mapping in order. -/
def ShowEntries : List (Drawing × Drawing) → List (Text × Data) → Prop
  | parts, [] => parts = []
  | parts, (key, d) :: rest => ∃ first more,
    parts = (.scalar none .string key false, first) :: more ∧ Shows first d ∧ ShowEntries more rest

end

theorem ofScalar_of_written {a : Atom} (written : a.Written) :
    ofScalar a.scalar = .ok (.scalar none a.tag a.characters false) := by
  cases a with
  | int i =>
    have small : integerText? i = .ok (Text.ofInt i) := if_pos written
    simp only [Atom.scalar, ofScalar, small]
    rfl
  | _ => rfl

/-- The places that are new when the first of two parts is drawn, and those that are new behind
it. -/
theorem fresh_append {first others met : List Place} (nodup : (first ++ others).Nodup)
    (fresh : ∀ p ∈ first ++ others, p ∉ met) :
    (∀ p ∈ first, p ∉ met) ∧ ∀ p ∈ others, p ∉ first.reverse ++ met := by
  constructor
  · exact fun p member => fresh p (List.mem_append_left others member)
  · intro p member
    have apart := (List.nodup_append.mp nodup).2.2
    simp only [List.mem_append, List.mem_reverse, not_or]
    exact ⟨fun before => apart p before p member rfl, fresh p (List.mem_append_right first member)⟩

mutual

/-- A value that stands for data is drawn as they say. -/
theorem drawWithin_of_stands {s : Store} : (d : Data) → {v : Value} → {places met : List Place} →
    {depth : Nat} → s.Stands d v places → d.Written → places.Nodup → (∀ p ∈ places, p ∉ met) →
    places.length ≤ depth → ∃ drawing, drawWithin s depth met v =
      .ok (drawing, places.reverse ++ met) ∧ drawing.Shows d ∧ drawing.references = []
  | .atom a, v, places, met, depth, stands, written, _, _, _ => by
    obtain ⟨rfl, rfl⟩ := stands
    refine ⟨.scalar none a.tag a.characters false, ?_, rfl, rfl⟩
    have drawn := ofScalar_of_written written
    cases depth <;> simp only [drawWithin, drawn] <;> rfl
  | .list items, v, places, met, depth, stands, written, nodup, fresh, deep => by
    obtain ⟨p, values, inner, rfl, rfl, cell, parts⟩ := stands
    obtain ⟨depth, rfl⟩ : ∃ n, depth = n + 1 := ⟨depth - 1, by simp at deep; omega⟩
    have fresh' : ∀ q ∈ inner, q ∉ [p].reverse ++ met := (fresh_append nodup fresh).2
    obtain ⟨drawings, drawn, shown, free⟩ := drawAll_of_standAll items parts written
      (List.nodup_cons.mp nodup).2 fresh' (Nat.le_of_succ_le_succ deep)
    have new : met.contains p = false := by simpa using fresh p List.mem_cons_self
    refine ⟨.sequence (some p) drawings, ?_, ⟨some p, drawings, rfl, shown⟩, free⟩
    have drawn' : drawAll (drawWithin s depth) (p :: met) values =
        .ok (drawings, inner.reverse ++ ([p].reverse ++ met)) := drawn
    simp only [drawWithin, new, Bool.false_eq_true, if_false, cell, drawn']
    simp [bind, Except.bind, pure, Except.pure]
  | .map entries, v, places, met, depth, stands, written, nodup, fresh, deep => by
    obtain ⟨p, values, inner, rfl, rfl, cell, parts, -⟩ := stands
    obtain ⟨depth, rfl⟩ : ∃ n, depth = n + 1 := ⟨depth - 1, by simp at deep; omega⟩
    have fresh' : ∀ q ∈ inner, q ∉ [p].reverse ++ met := (fresh_append nodup fresh).2
    obtain ⟨drawings, drawn, shown, free⟩ := drawEntries_of_standEntries entries parts written
      (List.nodup_cons.mp nodup).2 fresh' (Nat.le_of_succ_le_succ deep)
    have new : met.contains p = false := by simpa using fresh p List.mem_cons_self
    refine ⟨.mapping (some p) .mapping drawings, ?_, ⟨some p, drawings, rfl, shown⟩, free⟩
    have drawn' : drawEntries (drawWithin s depth) (p :: met) values =
        .ok (drawings, inner.reverse ++ ([p].reverse ++ met)) := drawn
    simp only [drawWithin, new, Bool.false_eq_true, if_false, cell, drawn']
    simp [bind, Except.bind, pure, Except.pure]

theorem drawAll_of_standAll {s : Store} : (items : List Data) → {values : List Value} →
    {places met : List Place} → {depth : Nat} → s.StandAll items values places →
    Data.AllWritten items → places.Nodup → (∀ p ∈ places, p ∉ met) → places.length ≤ depth →
    ∃ drawings, drawAll (drawWithin s depth) met values = .ok (drawings, places.reverse ++ met) ∧
      ShowAll drawings items ∧ referencesAll drawings = []
  | [], values, places, met, depth, stands, _, _, _, _ => by
    obtain ⟨rfl, rfl⟩ := stands
    exact ⟨[], rfl, rfl, rfl⟩
  | d :: rest, values, places, met, depth, stands, written, nodup, fresh, deep => by
    obtain ⟨v, more, first, others, rfl, rfl, here, later⟩ := stands
    obtain ⟨nodup₁, nodup₂, -⟩ := List.nodup_append.mp nodup
    obtain ⟨fresh₁, fresh₂⟩ := fresh_append nodup fresh
    rw [List.length_append] at deep
    obtain ⟨drawing, drawn₁, shown₁, free₁⟩ :=
      drawWithin_of_stands d here written.1 nodup₁ fresh₁ (Nat.le_trans (Nat.le_add_right _ _) deep)
    obtain ⟨drawings, drawn₂, shown₂, free₂⟩ :=
      drawAll_of_standAll rest later written.2 nodup₂ fresh₂
        (Nat.le_trans (Nat.le_add_left _ _) deep)
    refine ⟨drawing :: drawings, ?_, ⟨drawing, drawings, rfl, shown₁, shown₂⟩, ?_⟩
    · simp only [drawAll, drawn₁, bind, Except.bind, drawn₂, pure, Except.pure]
      simp
    · rw [referencesAll, free₁, free₂]
      rfl

theorem drawEntries_of_standEntries {s : Store} : (entries : List (Text × Data)) →
    {values : List (Value × Value)} → {places met : List Place} → {depth : Nat} →
    s.StandEntries entries values places → Data.EntriesWritten entries → places.Nodup →
    (∀ p ∈ places, p ∉ met) → places.length ≤ depth →
    ∃ drawings, drawEntries (drawWithin s depth) met values =
      .ok (drawings, places.reverse ++ met) ∧ ShowEntries drawings entries ∧
        referencesEntries drawings = []
  | [], values, places, met, depth, stands, _, _, _, _ => by
    obtain ⟨rfl, rfl⟩ := stands
    exact ⟨[], rfl, rfl, rfl⟩
  | (key, d) :: rest, values, places, met, depth, stands, written, nodup, fresh, deep => by
    obtain ⟨v, more, first, others, rfl, rfl, here, later⟩ := stands
    obtain ⟨nodup₁, nodup₂, -⟩ := List.nodup_append.mp nodup
    obtain ⟨fresh₁, fresh₂⟩ := fresh_append nodup fresh
    rw [List.length_append] at deep
    obtain ⟨drawing, drawn₁, shown₁, free₁⟩ :=
      drawWithin_of_stands d here written.1 nodup₁ fresh₁ (Nat.le_trans (Nat.le_add_right _ _) deep)
    obtain ⟨drawings, drawn₂, shown₂, free₂⟩ :=
      drawEntries_of_standEntries rest later written.2 nodup₂ fresh₂
        (Nat.le_trans (Nat.le_add_left _ _) deep)
    have drawnKey : drawWithin s depth met (.ofText key) =
        .ok (.scalar none .string key false, met) := by
      cases depth <;> rfl
    refine ⟨(.scalar none .string key false, drawing) :: drawings, ?_,
      ⟨drawing, drawings, rfl, shown₁, shown₂⟩, ?_⟩
    · simp only [drawEntries, drawnKey, drawn₁, bind, Except.bind, drawn₂, pure, Except.pure]
      simp
    · rw [referencesEntries, free₁, free₂]
      rfl

end

/-- Data whose containers are not shared are drawn as they are. -/
theorem draw_of_stands {s : Store} {d : Data} {v : Value} {places : List Place}
    (stands : s.Stands d v places) (written : d.Written) (nodup : places.Nodup) :
    ∃ drawing, draw s v = .ok drawing ∧ drawing.Shows d ∧ drawing.references = [] := by
  have few := Store.length_le_size nodup (stands.filled d)
  have none : ∀ p ∈ places, p ∉ ([] : List Place) := fun p _ => List.not_mem_nil
  obtain ⟨drawing, drawn, shown, free⟩ :=
    drawWithin_of_stands d stands written nodup none (Nat.le_succ_of_le few)
  exact ⟨drawing, by rw [draw, drawn]; rfl, shown, free⟩

end Yaml.Drawing

end SwaggerDoc
