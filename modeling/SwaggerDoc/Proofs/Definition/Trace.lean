import SwaggerDoc.Proofs.Definition.Visits
import Mathlib.Data.List.TakeWhile

/-!
What a normalization leaves in the journal.

Whether it comes to a definition or breaks off, the fallbacks noted are exactly those of the visits
passed, in their order and behind whatever was noted before; the log gets their warnings. A caller
that keeps no list of fallbacks changes nothing else.
-/

namespace SwaggerDoc

/-- The run passes all visits and notes their fallbacks, or it breaks off at one of them and notes
the fallbacks of those before. -/
def TracesVisits {α : Type} (visits : List Visit) (r : Report α) : Prop :=
  ∀ j : Journal,
    ((∀ x ∈ visits, x.fault? = none) ∧
      ∃ a, r j = (.ok a, j.noteAll (visits.filterMap Visit.fallback?))) ∨
    ∃ before x after fault, visits = before ++ x :: after ∧
      (∀ y ∈ before, y.fault? = none) ∧ x.fault? = some fault ∧
      r j = (.error fault, j.noteAll (before.filterMap Visit.fallback?))

/-- Without a list of fallbacks the run has the same outcome and the same log, and there is still no
list. -/
def IgnoresMissingList {α : Type} (r : Report α) : Prop :=
  ∀ kept log, r ⟨none, log⟩ = ((r ⟨some kept, log⟩).1, ⟨none, (r ⟨some kept, log⟩).2.log⟩)

theorem Visit.takeWhile_passed {visits : List Visit} (passed : ∀ x ∈ visits, x.fault? = none) :
    visits.takeWhile (·.fault?.isNone) = visits := by
  rw [List.takeWhile_eq_self_iff]
  intro x member
  rw [passed x member]
  rfl

/-- A pass that comes to its end has gone over all visits. -/
theorem Visit.exists_of_pass {α : Type} {a b : α} {xs : List Visit} {j j' : Journal}
    (done : Visit.pass a xs j = (.ok b, j')) :
    b = a ∧ (∀ x ∈ xs, x.fault? = none) ∧ j' = j.noteAll (xs.filterMap Visit.fallback?) := by
  rw [Visit.pass_apply] at done
  obtain ⟨result, noted⟩ := Prod.mk.inj done
  cases stops : xs.findSome? Visit.fault? with
  | some fault =>
    rw [stops] at result
    cases result
  | none =>
    rw [stops] at result
    have passed : ∀ x ∈ xs, x.fault? = none := List.findSome?_eq_none_iff.mp stops
    exact ⟨(Except.ok.inj result).symm, passed, by rw [← noted, Visit.takeWhile_passed passed]⟩

theorem Visit.tracesVisits_pass {α : Type} (a : α) (visits : List Visit) :
    TracesVisits visits (Visit.pass a visits) := by
  intro j
  rw [Visit.pass_apply]
  cases found : visits.findSome? Visit.fault? with
  | none =>
    have passed := List.findSome?_eq_none_iff.mp found
    rw [Visit.takeWhile_passed passed]
    exact .inl ⟨passed, a, rfl⟩
  | some fault =>
    obtain ⟨before, x, after, rfl, failed, passed⟩ := List.findSome?_eq_some_iff.mp found
    refine .inr ⟨before, x, after, fault, rfl, passed, failed, ?_⟩
    have stopped : (before ++ x :: after).takeWhile (·.fault?.isNone) = before := by
      rw [List.takeWhile_append_of_pos, List.takeWhile_cons_of_neg, List.append_nil]
      · simp [failed]
      · intro y member
        rw [passed y member]
        rfl
    rw [stopped]
    rfl

theorem Visit.ignoresMissingList_pass {α : Type} (a : α) (visits : List Visit) :
    IgnoresMissingList (Visit.pass a visits) := by
  intro kept log
  simp only [Visit.pass_apply, Journal.noteAll, Option.map_none]

/-- Normalizing an accepted schema leaves an exact trace: one fallback for each reference among the
visits passed, with the dotted name of the definition that the field belongs to. -/
theorem normalization_traces_visits {s : Store} {t : AcceptedSchema} {v : Value}
    (held : t.LiesAt s v) (name : Text) :
    TracesVisits (t.visits name) (s.definitionOf v name) ∧
      IgnoresMissingList (s.definitionOf v name) := by
  rw [held.definitionOf_eq name]
  exact ⟨Visit.tracesVisits_pass _ _, Visit.ignoresMissingList_pass _ _⟩

/-- The reference in the inner schema is noted although the field behind it breaks the run off. -/
theorem normalization_traces_nested_sample :
    TracesVisits (NestedSample.schema.visits (text "Project"))
        (NestedSample.store.definitionOf (.ref 9) (text "Project")) ∧
      (NestedSample.store.definitionOf (.ref 9) (text "Project") ⟨some [], []⟩).2.kept =
        some [⟨text "Project.team", text "owner", text "ObjectId"⟩] :=
  ⟨(normalization_traces_visits NestedSample.schema_liesAt (text "Project")).1, rfl⟩

end SwaggerDoc
