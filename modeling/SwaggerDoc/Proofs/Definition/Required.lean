import SwaggerDoc.Proofs.Definition.Selected
import SwaggerDoc.Proofs.Outcome
import Mathlib.Data.List.Nodup

/-!
The required fields of a schema.

They are listed twice. A schema that is asked for them goes over its declarations, while a
normalization notes the name of a required field once the field has a property. So the two lists
differ by the required fields whose types map to nothing: these are asked for although no definition
has them.
-/

namespace SwaggerDoc

namespace AcceptedSchema

/-- The required public fields with their types, in the order declared. -/
def requiredFields : AcceptedSchema → List (Text × AcceptedTag)
  | .done => []
  | .field name tag options rest =>
    if options.required && !isPrivate name then (name, tag) :: rest.requiredFields
    else rest.requiredFields

/-- Every required public field has a property. -/
def RequiresSelected (t : AcceptedSchema) : Prop :=
  ∀ f ∈ t.requiredFields, f.2.isSelected = true

instance (t : AcceptedSchema) : Decidable t.RequiresSelected :=
  inferInstanceAs (Decidable (∀ f ∈ t.requiredFields, f.2.isSelected = true))

/-! ## Required fields among all fields -/

theorem requiredFields_sublist_fields (t : AcceptedSchema) : t.requiredFields.Sublist t.fields := by
  induction t using AcceptedSchema.fields.induct with
  | case1 => exact .slnil
  | case2 name tag options rest later =>
    rw [requiredFields, fields]
    split
    · exact later.cons_cons _
    · exact later.cons _

theorem isPrivate_of_mem_requiredFields {f : Text × AcceptedTag} {t : AcceptedSchema}
    (member : f ∈ t.requiredFields) : isPrivate f.1 = false := by
  induction t using AcceptedSchema.fields.induct with
  | case1 => cases member
  | case2 name tag options rest later =>
    rw [requiredFields] at member
    split at member
    · next required =>
      rcases List.mem_cons.mp member with rfl | member
      · simpa using (Bool.and_eq_true_iff.mp required).2
      · exact later member
    · exact later member

/-- The required fields that have properties are fields that have properties. -/
theorem filter_requiredFields_sublist_selected (t : AcceptedSchema) :
    (t.requiredFields.filter (·.2.isSelected)).Sublist t.selected := by
  have same : t.requiredFields.filter (·.2.isSelected) =
      t.requiredFields.filter fun f => !isPrivate f.1 && f.2.isSelected := by
    apply List.filter_congr
    intro f member
    rw [isPrivate_of_mem_requiredFields member]
    rfl
  rw [same]
  exact t.requiredFields_sublist_fields.filter _

theorem fields_names (t : AcceptedSchema) : t.fields.map Prod.fst = t.names := by
  induction t using AcceptedSchema.fields.induct with
  | case1 => rfl
  | case2 name tag options rest later => rw [fields, names, List.map_cons, later]

/-- Among fields with names of their own, a required field whose name a property has is one that is
selected. -/
theorem isSelected_of_name_mem {t : AcceptedSchema} (nodup : t.names.Nodup)
    {f : Text × AcceptedTag} (required : f ∈ t.requiredFields)
    (named : f.1 ∈ t.selected.map Prod.fst) : f.2.isSelected = true := by
  obtain ⟨g, selected, same⟩ := List.mem_map.mp named
  obtain ⟨declared, shown⟩ := List.mem_filter.mp selected
  have unique : g = f :=
    List.inj_on_of_nodup_map (t.fields_names ▸ nodup) declared
      (t.requiredFields_sublist_fields.subset required) same
  rw [← unique]
  exact (Bool.and_eq_true_iff.mp shown).2

/-! ## What is noted -/

/-- A normalization notes the required fields that have properties. -/
theorem collected_required (t : AcceptedSchema) :
    t.collected.required =
      (t.requiredFields.filter (·.2.isSelected)).map fun f => Name.text f.1 := by
  induction t using AcceptedSchema.fields.induct with
  | case1 => rfl
  | case2 name tag options rest later =>
    have shown := tag.isSelected_eq options.targetText
    rw [collected, requiredFields]
    cases isPrivate name with
    | true => simpa using later
    | false =>
      cases maps : tag.kind? options.targetText with
      | none =>
        rw [maps] at shown
        cases options.required with
        | true => simpa [shown] using later
        | false => exact later
      | some kind =>
        rw [maps] at shown
        cases options.required with
        | true => simpa [shown, Collected.cons] using later
        | false => exact later

/-! ## What is asked for -/

/-- Keeping the entries that pass a test which looks at the declaration alone keeps the required
public fields. -/
theorem LiesIn.names_of_filterM {s : Store} {test : Value × Value → Except Fault Bool}
    (tests : ∀ name v f, s.deref? v = some (.field f) →
      test (.ofText name, v) = .ok (s.truthy f.required && !isPrivate name)) :
    {t : AcceptedSchema} → {entries : List (Value × Value)} → t.LiesIn s entries →
      (do
        let kept ← entries.filterM test
        return kept.map Prod.fst) = .ok (t.requiredFields.map fun f => .ofText f.1)
  | .done, _, rfl => rfl
  | .field name tag options rest, _, ⟨v, f, later, same, lies⟩ => by
    subst same
    obtain ⟨cell, -, modifiers, -, inside⟩ := lies
    obtain ⟨kept, filtered, same⟩ := Except.exists_ok_of_bind (LiesIn.names_of_filterM tests inside)
    have names := Except.ok.inj same
    have passes := tests name v f cell
    rw [modifiers.required] at passes
    rw [Except.filterM_cons_ok passes filtered, requiredFields]
    cases options.required with
    | false => exact congrArg Except.ok names
    | true =>
      cases isPrivate name with
      | true => exact congrArg Except.ok names
      | false => exact congrArg (fun names => Except.ok (Value.ofText name :: names)) names

/-- An accepted schema that is asked for its required fields names all that are public. -/
theorem LiesAt.requiredNames_eq {s : Store} {t : AcceptedSchema} {v : Value}
    (held : t.LiesAt s v) :
    s.requiredNames v = .ok (t.requiredFields.map fun f => .ofText f.1) := by
  obtain ⟨entries, found, inside⟩ := held
  obtain ⟨fields, schema, map⟩ := Store.exists_fields_of_schemaEntries? found
  simp only [Store.requiredNames, schema, map]
  apply inside.names_of_filterM
  intro name v f cell
  simp only [cell]
  cases s.truthy f.required with
  | true => rfl
  | false => rfl

/-! ## The two lists -/

/-- How the names that a schema is asked for compare with what its normalization collects. -/
structure RequiredCompare (t : AcceptedSchema) (asked : List Value) (c : Collected) : Prop where
  /-- All required public fields are asked for, in the order declared. -/
  asked_eq : asked = t.requiredFields.map fun f => .ofText f.1
  /-- Those of them that have a property are noted, in the same order. -/
  noted_eq : c.required = (t.requiredFields.filter (·.2.isSelected)).map fun f => .text f.1
  /-- What is noted are keys of the properties, in their order. -/
  noted_sublist : c.required.Sublist (c.properties.map Prod.fst)
  /-- The lists are equal exactly if every required public field has a property. -/
  same_iff : asked = c.required.map (fun n => .scalar n.scalar) ↔ t.RequiresSelected
  /-- Then and only then all that is asked for are keys of the properties. -/
  keys_iff : (∀ name ∈ asked, name ∈ (Property.entriesOf c.properties).map Prod.fst) ↔
    t.RequiresSelected

theorem requiredCompare_collected {t : AcceptedSchema} (nodup : t.names.Nodup) :
    t.RequiredCompare (t.requiredFields.map fun f => .ofText f.1) t.collected := by
  have noted : (t.collected.required.map fun n => .scalar n.scalar) =
      (t.requiredFields.filter (·.2.isSelected)).map fun f => Value.ofText f.1 := by
    rw [t.collected_required, List.map_map]
    rfl
  refine ⟨rfl, t.collected_required, ?_, ?_, ?_⟩
  · rw [t.collected_required, t.properties_names]
    exact t.filter_requiredFields_sublist_selected.map _
  · rw [noted]
    constructor
    · intro same
      -- The filtered list is no longer than the list it is filtered from only if nothing is lost.
      have length := congrArg List.length same
      rw [List.length_map, List.length_map] at length
      exact List.length_filter_eq_length_iff.mp length.symm
    · intro selected
      rw [List.filter_eq_self.mpr selected]
  · rw [t.keys_properties]
    constructor
    · intro named f required
      obtain ⟨g, selected, same⟩ := List.mem_map.mp (named _ (List.mem_map_of_mem required))
      have name : g.1 = f.1 := by simpa using same
      exact isSelected_of_name_mem nodup required (name ▸ List.mem_map_of_mem selected)
    · intro selected name asked
      obtain ⟨f, required, rfl⟩ := List.mem_map.mp asked
      have kept : f ∈ t.requiredFields.filter (·.2.isSelected) :=
        List.mem_filter.mpr ⟨required, selected f required⟩
      exact List.mem_map_of_mem (t.filter_requiredFields_sublist_selected.subset kept)

end AcceptedSchema

/-- Where normalizing an accepted schema comes to a definition, the schema can be asked for its
required fields. The answer is what was noted on the way, and has keys of the definition only,
exactly if every required public field has a type that maps to something. -/
theorem required_names_compare_with_noted {s : Store} {t : AcceptedSchema} {v : Value}
    (held : t.LiesAt s v) {name : Text} {j : Journal} {shape : Shape}
    (made : (s.definitionOf v name j).1 = .ok shape) :
    ∃ asked c, s.requiredNames v = .ok asked ∧
      ((s.outlineOf v).collect (.ofText name) j).1 = .ok c ∧ c.definition.shape = shape ∧
      t.RequiredCompare asked c := by
  have read : s.outlineOf v = t.outline := held.read_eq
  have asked := held.requiredNames_eq
  obtain ⟨entries, -, inside⟩ := held
  rw [Store.definitionOf] at made
  obtain ⟨d, j', defined, made⟩ := Report.exists_of_bind made
  obtain ⟨c, j'', collected, defined⟩ := Report.exists_of_bind defined
  obtain rfl := Except.ok.inj defined
  obtain rfl := Except.ok.inj made
  have same : c = t.collected := by
    rw [read, inside.collect_eq name] at collected
    exact Visit.eq_of_pass collected
  refine ⟨_, c, asked, collected, rfl, ?_⟩
  rw [same]
  exact AcceptedSchema.requiredCompare_collected inside.names_nodup

namespace RequiredSample

open NestedSample (options declaration)

/-- Options of a required field. -/
def requiring : Options := { options with required := true }

/-- A declaration of a required field with a type. -/
def required (tag : Value) : FieldCell := { declaration tag with required := .scalar (.bool true) }

/-- A schema with a required number, a private required object and an object that is not
required. -/
def schema : AcceptedSchema :=
  .field (text "size") (.plain (.scalar (.fieldType .number))) requiring <|
  .field (text "__key") (.plain (.scalar (.fieldType .object))) requiring <|
  .field (text "any") (.plain (.scalar (.fieldType .object))) options .done

/-- A schema with a required object and a required number. -/
def schemaOfObject : AcceptedSchema :=
  .field (text "any") (.plain (.scalar (.fieldType .object))) requiring <|
  .field (text "size") (.plain (.scalar (.fieldType .number))) requiring .done

/-- A store that holds the two schemas at its last places. -/
def store : Store where
  cells := #[
    .list [],
    .field (required (.scalar (.fieldType .number))),
    .field (required (.scalar (.fieldType .object))),
    .field (declaration (.scalar (.fieldType .object))),
    .map [(.ofText (text "size"), .ref 1), (.ofText (text "__key"), .ref 2),
      (.ofText (text "any"), .ref 3)],
    .map [(.ofText (text "any"), .ref 2), (.ofText (text "size"), .ref 1)],
    .schema (.ref 4),
    .schema (.ref 5)]
  labels := 1
  given := []

theorem requiring_lieIn (tag : Value) : requiring.LieIn store (required tag) :=
  ⟨rfl, rfl, rfl, rfl, rfl, rfl, rfl, rfl⟩

theorem schema_liesAt : schema.LiesAt store (.ref 6) := by
  refine ⟨_, rfl, ?_⟩
  refine ⟨_, _, _, rfl, rfl, ⟨rfl, nofun, rfl⟩, requiring_lieIn _, by decide, ?_⟩
  refine ⟨_, _, _, rfl, rfl, ⟨rfl, nofun, rfl⟩, requiring_lieIn _, by decide, ?_⟩
  exact ⟨_, _, _, rfl, rfl, ⟨rfl, nofun, rfl⟩, NestedSample.options_lieIn rfl _, by decide, rfl⟩

theorem schemaOfObject_liesAt : schemaOfObject.LiesAt store (.ref 7) := by
  refine ⟨_, rfl, ?_⟩
  refine ⟨_, _, _, rfl, rfl, ⟨rfl, nofun, rfl⟩, requiring_lieIn _, by decide, ?_⟩
  exact ⟨_, _, _, rfl, rfl, ⟨rfl, nofun, rfl⟩, requiring_lieIn _, by decide, rfl⟩

end RequiredSample

open RequiredSample in
/-- In the sample the private object and the one that is not required do no harm: what is asked for
is what was noted. -/
theorem required_names_of_sample_are_noted :
    (store.definitionOf (.ref 6) [] ⟨none, []⟩).1 = .ok schema.definition.shape ∧
      store.requiredNames (.ref 6) = .ok [.ofText (text "size")] ∧
      ∃ asked c, store.requiredNames (.ref 6) = .ok asked ∧
        ((store.outlineOf (.ref 6)).collect (.ofText []) ⟨none, []⟩).1 = .ok c ∧
        asked = c.required.map (fun n => .scalar n.scalar) := by
  have made : (store.definitionOf (.ref 6) [] ⟨none, []⟩).1 = .ok schema.definition.shape := by
    rw [schema_liesAt.definitionOf_eq []]
    rfl
  obtain ⟨asked, c, found, collected, -, compare⟩ :=
    required_names_compare_with_noted schema_liesAt made
  have selected : schema.RequiresSelected := by decide
  exact ⟨made, schema_liesAt.requiredNames_eq, asked, c, found, collected,
    compare.same_iff.mpr selected⟩

open RequiredSample in
/-- A required object is asked for, but it is neither noted nor a key of the definition. -/
theorem required_object_is_not_noted :
    schemaOfObject.LiesAt store (.ref 7) ∧
      store.requiredNames (.ref 7) = .ok [.ofText (text "any"), .ofText (text "size")] ∧
      ∃ c, ((store.outlineOf (.ref 7)).collect (.ofText []) ⟨none, []⟩).1 = .ok c ∧
        (store.definitionOf (.ref 7) [] ⟨none, []⟩).1 = .ok c.definition.shape ∧
        c.required = [.text (text "size")] ∧
        c.properties.map Prod.fst = [.text (text "size")] := by
  refine ⟨schemaOfObject_liesAt, schemaOfObject_liesAt.requiredNames_eq, schemaOfObject.collected,
    ?_, ?_, rfl, rfl⟩
  · have read : store.outlineOf (.ref 7) = schemaOfObject.outline := schemaOfObject_liesAt.read_eq
    obtain ⟨entries, -, inside⟩ := schemaOfObject_liesAt
    rw [read, inside.collect_eq []]
    rfl
  · rw [schemaOfObject_liesAt.definitionOf_eq []]
    rfl

end SwaggerDoc
