import SwaggerDoc.Definition.Shape
import SwaggerDoc.Proofs.Definition.Content
import SwaggerDoc.Proofs.Store.Closed

/-!
The values that come into definitions.

Descriptions, choices and bounds come in as they are, examples as copies. `Uses` says of a
definition what these values are like, at every depth, and its shape has no others. In the
definition of an accepted schema nothing comes in as it is but scalars.
-/

namespace SwaggerDoc

open Shape

/-- The value in a choice. -/
def Choice.inner : Choice → Value
  | .value v | .attribute _ v => v

/-- The values among allowable values. -/
def Allowable.values : Allowable → List Value
  | .list choices => choices.map Choice.inner
  | .range least greatest => least.toList ++ greatest.toList

section Uses

variable (shared copied : Value → Prop)

mutual

/-- What comes in with a kind is as said. -/
def Kind.Uses : Kind → Prop
  | .records item => item.Uses
  | _ => True

/-- What comes in with a property is as said. -/
def Property.Uses : Property → Prop
  | .mk kind description sample allowable =>
    kind.Uses ∧ (∀ v, description = some v → shared v) ∧ (∀ v, sample = some v → copied v) ∧
      ∀ a, allowable = some a → ∀ v ∈ a.values, shared v

/-- What comes in with properties is as said, the names among it. -/
def Property.AllUse : List (Name × Property) → Prop
  | [] => True
  | (name, property) :: rest =>
    shared (.scalar name.scalar) ∧ property.Uses ∧ Property.AllUse rest

/-- What comes in with a definition is as said. -/
def Definition.Uses : Definition → Prop
  | .mk properties => Property.AllUse properties

end

end Uses

section Takes

variable {shared copied : Value → Prop}

theorem Choice.takes_shape (texts : ∀ t, shared (.ofText t)) {c : Choice} (uses : shared c.inner) :
    c.shape.Takes shared copied := by
  cases c with
  | value v => exact takes_value uses
  | «attribute» name v =>
    refine takes_tuple fun e listed => ?_
    simp only [List.mem_cons, List.not_mem_nil, or_false] at listed
    rcases listed with rfl | rfl
    · exact takes_value (texts _)
    · exact takes_value uses

theorem Allowable.takes_shape (texts : ∀ t, shared (.ofText t)) {a : Allowable}
    (uses : ∀ v ∈ a.values, shared v) : a.shape.Takes shared copied := by
  cases a with
  | list choices =>
    refine takes_record texts fun e listed => ?_
    simp only [List.mem_cons, List.not_mem_nil, or_false] at listed
    rcases listed with rfl | rfl
    · exact takes_value (texts _)
    · refine takes_list fun e listed => ?_
      obtain ⟨c, member, rfl⟩ := List.mem_map.mp listed
      exact c.takes_shape texts (uses _ (List.mem_map_of_mem member))
  | range least greatest =>
    refine takes_record texts fun e listed => ?_
    simp only [List.mem_append, List.mem_singleton, Option.mem_toList, Option.map_eq_some_iff]
      at listed
    rcases listed with (rfl | ⟨v, bound, rfl⟩) | ⟨v, bound, rfl⟩
    · exact takes_value (texts _)
    · exact takes_value (uses v (by simp [values, bound]))
    · exact takes_value (uses v (by simp [values, bound]))

theorem Kind.takes_fallbackType (texts : ∀ t, shared (.ofText t)) (kind : Kind) :
    ∀ e ∈ kind.fallbackType, e.2.Takes shared copied := by
  intro e listed
  cases kind with
  | reference target =>
    rw [List.mem_singleton.mp listed]
    exact takes_value (texts _)
  | _ => cases listed

mutual

/-- The shape of what a type maps to has the values that come in with it. -/
theorem Kind.takes_entries (texts : ∀ t, shared (.ofText t)) :
    {kind : Kind} → kind.Uses shared copied → ∀ e ∈ kind.entries, e.2.Takes shared copied
  | .string, _, e, listed | .boolean, _, e, listed | .reference _, _, e, listed => by
    rw [List.mem_singleton.mp listed]
    exact takes_value (texts _)
  | .date, _, e, listed | .integer, _, e, listed => by
    simp only [Kind.entries, List.mem_cons, List.not_mem_nil, or_false] at listed
    rcases listed with rfl | rfl <;> exact takes_value (texts _)
  | .texts, _, e, listed => by
    simp only [Kind.entries, List.mem_cons, List.not_mem_nil, or_false] at listed
    rcases listed with rfl | rfl
    · exact takes_value (texts _)
    · refine takes_record texts fun e listed => ?_
      rw [List.mem_singleton.mp listed]
      exact takes_value (texts _)
  | .records item, uses, e, listed => by
    simp only [Kind.entries, List.mem_cons, List.not_mem_nil, or_false] at listed
    rcases listed with rfl | rfl
    · exact takes_value (texts _)
    · exact Definition.takes_shape texts uses

theorem Property.takes_shape (texts : ∀ t, shared (.ofText t)) :
    {p : Property} → p.Uses shared copied → p.shape.Takes shared copied
  | .mk kind description sample allowable, ⟨inside, described, sampled, allowed⟩ => by
    rw [Property.shape]
    refine takes_record texts fun e listed => ?_
    simp only [List.mem_append, Option.mem_toList, Option.map_eq_some_iff] at listed
    rcases listed with (((maps | ⟨v, given, rfl⟩) | ⟨v, given, rfl⟩) | ⟨a, given, rfl⟩) | falls
    · exact Kind.takes_entries texts inside e maps
    · exact takes_value (described v given)
    · exact takes_copy (sampled v given)
    · exact a.takes_shape texts (allowed a given)
    · exact kind.takes_fallbackType texts e falls

theorem Property.takes_entriesOf (texts : ∀ t, shared (.ofText t)) :
    {properties : List (Name × Property)} → Property.AllUse shared copied properties →
      ∀ e ∈ Property.entriesOf properties, shared e.1 ∧ e.2.Takes shared copied
  | (name, property) :: rest, ⟨named, first, later⟩, e, listed => by
    rw [Property.entriesOf] at listed
    rcases List.mem_cons.mp listed with rfl | listed
    · exact ⟨named, Property.takes_shape texts first⟩
    · exact Property.takes_entriesOf texts later e listed

/-- The shape of a definition has the values that come in with it. -/
theorem Definition.takes_shape (texts : ∀ t, shared (.ofText t)) :
    {d : Definition} → d.Uses shared copied → d.shape.Takes shared copied
  | .mk properties, uses => by
    rw [Definition.shape]
    refine takes_record texts fun e listed => ?_
    rw [List.mem_singleton.mp listed]
    exact takes_map (Property.takes_entriesOf texts uses)

end

end Takes

end SwaggerDoc
