import SwaggerDoc.Proofs.Document.Compiling

/-!
Which field is blamed for a type that is none.

The field named in the fault is the first of the visited fields whose type should have been a type
tag, however deep the schema that it belongs to lies in other schemas. If there is a result, no
visited field has such a type.
-/

namespace SwaggerDoc

/-- Whether a type should have been a type tag. -/
def AcceptedTag.isStray (t : AcceptedTag) : Bool := t.stray?.isSome

/-- An unrecognised tag is that of the first visited field with a stray type, and the fault names
this field; a result means that there is no such field. -/
structure BlamesFirstStray {α : Type} (visits : List Visit) (result : Except Fault α) : Prop where
  of_fault : ∀ tag shown field, result = .error (.unrecognized tag shown field) →
    ∃ x, visits.find? (·.tag.isStray) = some x ∧ x.tag = .plain tag ∧ field = some (.text x.field)
  of_result : ∀ a, result = .ok a → ∀ x ∈ visits, x.tag.isStray = false

theorem AcceptedTag.plain_of_stray? {t : AcceptedTag} {x : Scalar} (stray : t.stray? = some x) :
    t = .plain (.scalar x) := by
  cases t with
  | nested element => cases stray
  | list => cases stray
  | plain v => rw [AcceptedTag.eq_of_stray? stray]

theorem Visit.not_isStray_of_passed {x : Visit} (passed : x.fault? = none) :
    x.tag.isStray = false := by
  unfold Visit.fault? at passed
  split at passed
  · cases passed
  · next none => simp [AcceptedTag.isStray, none]

/-- A visit at which a tag is not recognised has that tag, and the fault names its field. -/
theorem Visit.stray_of_unrecognized {x : Visit} {tag : Value} {shown : Text} {field : Option Name}
    (failed : x.fault? = some (.unrecognized tag shown field)) :
    x.tag.isStray = true ∧ x.tag = .plain tag ∧ field = some (.text x.field) := by
  unfold Visit.fault? at failed
  split at failed
  · next stray found =>
    have same := Option.some.inj failed
    unfold Fault.ofStray at same
    split at same
    · obtain ⟨rfl, rfl, rfl⟩ := Fault.unrecognized.inj same
      exact ⟨by simp [AcceptedTag.isStray, found], AcceptedTag.plain_of_stray? found, rfl⟩
    · next wrong =>
      rw [Scalar.shown_error wrong] at same
      cases same
  · split at failed
    · cases failed
    · cases failed

theorem Visit.blamesFirstStray_pass {α : Type} (a : α) (visits : List Visit) (j : Journal) :
    BlamesFirstStray visits (Visit.pass a visits j).1 := by
  rw [Visit.pass_apply]
  cases found : visits.findSome? Visit.fault? with
  | none =>
    refine ⟨nofun, fun _ _ x member => ?_⟩
    exact Visit.not_isStray_of_passed (List.findSome?_eq_none_iff.mp found x member)
  | some fault =>
    refine ⟨fun tag shown field same => ?_, nofun⟩
    obtain rfl := Except.error.inj same
    obtain ⟨before, x, after, rfl, failed, passed⟩ := List.findSome?_eq_some_iff.mp found
    obtain ⟨stray, tagged, named⟩ := Visit.stray_of_unrecognized failed
    have before_passed : before.find? (·.tag.isStray) = none := by
      rw [List.find?_eq_none]
      intro y member
      simp [Visit.not_isStray_of_passed (passed y member)]
    refine ⟨x, ?_, tagged, named⟩
    rw [List.find?_append, before_passed]
    simp [stray]

/-- Normalizing an accepted schema, and compiling an accepted resource with it, blames the first
visited field whose type is none, whatever is noted. -/
theorem first_stray_field_is_blamed {s : Store} {t : AcceptedSchema} {v : Value}
    (held : t.LiesAt s v) (j : Journal) :
    (∀ name, BlamesFirstStray (t.visits name) (s.definitionOf v name j).1) ∧
      ∀ (r : Resource) (resource : Value), r.LiesAt s resource →
        BlamesFirstStray (t.visits r.model) (s.compile resource v .null j).1 := by
  refine ⟨fun name => ?_, fun r resource lies => ?_⟩
  · rw [held.definitionOf_eq name]
    exact Visit.blamesFirstStray_pass _ _ j
  · rw [lies.compile_made held]
    exact Visit.blamesFirstStray_pass _ _ j

/-- In the sample the type of the inner field is blamed, neither the private field in front nor the
list around it. -/
theorem first_stray_field_of_nested_sample :
    BlamesFirstStray (NestedSample.schema.visits (text "Project"))
        (NestedSample.store.definitionOf (.ref 9) (text "Project") ⟨none, []⟩).1 ∧
      (NestedSample.store.definitionOf (.ref 9) (text "Project") ⟨none, []⟩).1.toOption.isNone ∧
      ((NestedSample.schema.visits (text "Project")).find? (·.tag.isStray)).map (·.field) =
        some (text "kind") :=
  ⟨(first_stray_field_is_blamed NestedSample.schema_liesAt ⟨none, []⟩).1 (text "Project"),
    rfl, rfl⟩

end SwaggerDoc
