import SwaggerDoc.Proofs.Definition.WellFormed

/-!
The fields of a definition.

A public field has a property exactly if its type is a list or a type tag other than that of
objects, and the properties stand in the order in which the fields are declared. `Store.Selects`
says so of a definition where it lies in a store and of the definitions nested in it: those are the
items of the lists whose first element is a schema, while every other list has strings.
-/

namespace SwaggerDoc

/-! ## The fields that are selected -/

/-- The type of a field that has a property: a list, whatever is in it, or a type tag other than
that of objects. -/
def AcceptedTag.isSelected : AcceptedTag → Bool
  | .nested _ | .list => true
  | .plain (.scalar (.fieldType t)) => t != .object
  | .plain _ => false

/-- The type has strings as its items: the tag of arrays, or a list that does not begin with a
schema. -/
def AcceptedTag.HasStrings (tag : AcceptedTag) : Prop :=
  tag = .list ∨ tag = .plain (.scalar (.fieldType .array))

namespace AcceptedSchema

/-- The fields with their types, in the order declared. -/
def fields : AcceptedSchema → List (Text × AcceptedTag)
  | .done => []
  | .field name tag _ rest => (name, tag) :: rest.fields

/-- The fields that have properties: those that are public and have such a type. -/
def selected (t : AcceptedSchema) : List (Text × AcceptedTag) :=
  t.fields.filter fun f => !isPrivate f.1 && f.2.isSelected

end AcceptedSchema

namespace Store

/-- What stands behind the key for the items in the descriptor of a field. -/
def items? (u : Store) (entries : List (Value × Value)) (name : Text) : Option Value :=
  match (lookupText? entries name).bind u.deref? with
  | some (.map descriptor) => behind? descriptor "items"
  | _ => none

/-- The value is a definition with the selected fields of a schema as its keys, each once and in the
order declared. The items of a field whose type begins with a schema are such a definition again,
and those of other arrays are strings. -/
inductive Selects (u : Store) : AcceptedSchema → Value → Prop
  | mk {t : AcceptedSchema} {v properties : Value} {entries : List (Value × Value)} :
    u.deref? v = some (.map [(.ofText (text "properties"), properties)]) →
    u.deref? properties = some (.map entries) →
    entries.map Prod.fst = t.selected.map (fun f => .ofText f.1) → (entries.map Prod.fst).Nodup →
    (∀ f ∈ t.selected, f.2.HasStrings →
      ∃ items, u.items? entries f.1 = some items ∧ u.IsStringType items) →
    (∀ name element, (name, .nested element) ∈ t.selected → (u.items? entries name).isSome) →
    (∀ name element items, (name, .nested element) ∈ t.selected →
      u.items? entries name = some items → Selects u element items) →
    Selects u t v

end Store

/-! ## Properties by the fields -/

section Properties

theorem AcceptedTag.isSelected_eq (tag : AcceptedTag) (target : Text) :
    tag.isSelected = (tag.kind? target).isSome := by
  cases tag with
  | nested element => rfl
  | list => rfl
  | plain v =>
    cases v with
    | ref p => rfl
    | scalar x =>
      cases x with
      | fieldType t => cases t <;> rfl
      | _ => rfl

theorem AcceptedTag.HasStrings.kind?_eq {tag : AcceptedTag} (strings : tag.HasStrings)
    (target : Text) : tag.kind? target = some .texts := by
  rcases strings with rfl | rfl <;> rfl

theorem AcceptedSchema.selected_field (name : Text) (tag : AcceptedTag) (options : Options)
    (rest : AcceptedSchema) :
    (AcceptedSchema.field name tag options rest).selected =
      if !isPrivate name && tag.isSelected then (name, tag) :: rest.selected else rest.selected := by
  rw [selected, fields, List.filter_cons]
  rfl

/-- The fields that have properties are those that are selected. -/
theorem AcceptedSchema.properties_names (t : AcceptedSchema) :
    t.collected.properties.map Prod.fst = t.selected.map fun f => Name.text f.1 := by
  induction t using AcceptedSchema.fields.induct with
  | case1 => rfl
  | case2 name tag options rest later =>
    have shown := tag.isSelected_eq options.targetText
    rw [AcceptedSchema.collected, AcceptedSchema.selected_field]
    cases isPrivate name with
    | true => simpa using later
    | false =>
      cases maps : tag.kind? options.targetText with
      | none =>
        rw [maps] at shown
        simpa [shown] using later
      | some kind =>
        rw [maps] at shown
        simpa [shown, Collected.cons] using later

/-- The keys of the properties are the names of the selected fields. -/
theorem AcceptedSchema.keys_properties (t : AcceptedSchema) :
    (Property.entriesOf t.collected.properties).map Prod.fst =
      t.selected.map fun f => .ofText f.1 := by
  have names := congrArg (List.map fun n => Value.scalar n.scalar) t.properties_names
  rw [List.map_map, List.map_map] at names
  rw [Property.keys_entriesOf]
  exact names

/-- A selected field has a property for what its type maps to. -/
theorem AcceptedSchema.exists_property {name : Text} {tag : AcceptedTag} : {t : AcceptedSchema} →
    (name, tag) ∈ t.selected → ∃ (o : Options) (kind : Kind), tag.kind? o.targetText = some kind ∧
      (Name.text name, o.property kind) ∈ t.collected.properties
  | .done, member => by cases member
  | .field name' tag' options rest, member => by
    rw [AcceptedSchema.selected_field] at member
    rw [AcceptedSchema.collected]
    split at member
    · next shown =>
      obtain ⟨isPublic, selects⟩ := Bool.and_eq_true_iff.mp shown
      rw [tag'.isSelected_eq options.targetText] at selects
      obtain ⟨kind, maps⟩ := Option.isSome_iff_exists.mp selects
      simp only [Bool.not_eq_true'] at isPublic
      simp only [isPublic, maps, Bool.false_eq_true, if_false, Collected.cons]
      rcases List.mem_cons.mp member with same | member
      · obtain ⟨rfl, rfl⟩ := Prod.mk.inj same
        exact ⟨options, kind, maps, List.mem_cons_self⟩
      · obtain ⟨o, kind', maps', listed⟩ := AcceptedSchema.exists_property member
        exact ⟨o, kind', maps', List.mem_cons_of_mem _ listed⟩
    · obtain ⟨o, kind, maps, listed⟩ := AcceptedSchema.exists_property member
      refine ⟨o, kind, maps, ?_⟩
      split
      · exact listed
      · split
        · exact listed
        · exact List.mem_cons_of_mem _ listed

end Properties

/-! ## Properties where they lie -/

section Standing

variable {u : Store} {entries : List (Value × Value)} {name : Text} {v : Value}

theorem Property.exists_of_mem {property : Property} : {properties : List (Name × Property)} →
    {entries : List (Value × Value)} →
      Shape.EntriesStandAt u (Property.entriesOf properties) entries →
      (Name.text name, property) ∈ properties →
        ∃ v, (.ofText name, v) ∈ entries ∧ property.shape.StandsAt u v
  | (_, _) :: _, _, stand, member => by
    obtain ⟨v, later, rfl, stands, standLater⟩ := stand
    rcases List.mem_cons.mp member with same | member
    · obtain ⟨rfl, rfl⟩ := Prod.mk.inj same
      exact ⟨v, List.mem_cons_self, stands⟩
    · obtain ⟨w, listed, stands'⟩ := Property.exists_of_mem standLater member
      exact ⟨w, List.mem_cons_of_mem _ listed, stands'⟩

/-- Among keys that are all different, an entry is found by its key. -/
theorem lookupText?_of_mem (nodup : (entries.map Prod.fst).Nodup)
    (texts : ∀ e ∈ entries, ∃ t, e.1 = .ofText t) (member : (.ofText name, v) ∈ entries) :
    lookupText? entries name = some v := by
  induction entries with
  | nil => cases member
  | cons e entries ih =>
    obtain ⟨fresh, later⟩ := List.nodup_cons.mp nodup
    obtain ⟨⟨t, key⟩, others⟩ := List.forall_mem_cons.mp texts
    rcases List.mem_cons.mp member with rfl | member
    · simp [lookupText?, Value.asText?, Scalar.asText?]
    · have different : t ≠ name := by
        rintro rfl
        exact fresh (key ▸ List.mem_map_of_mem member)
      have found := ih later others member
      simpa [lookupText?, key, Value.asText?, Scalar.asText?, different] using found

/-- The items of a field are those of the kind that its type maps to. -/
theorem Store.exists_items? {o : Options} {kind : Kind} {shape : Shape}
    (found : lookupText? entries name = some v) (stands : (o.property kind).shape.StandsAt u v)
    (itemized : kind.items? = some shape) :
    ∃ items, u.items? entries name = some items ∧ shape.StandsAt u items := by
  rw [Property.shape_eq] at stands
  obtain ⟨descriptor, cell, stand⟩ := stands
  have listed := Property.lookup_items kind o.describing? o.example? o.allowable
  obtain ⟨items, behind, standsItems⟩ := Shape.behind?_of_lookup stand (listed.trans itemized)
  refine ⟨items, ?_, standsItems⟩
  simp only [Store.items?, found, Option.bind_some, cell]
  exact behind

end Standing

/-! ## Definitions -/

/-- The definition of a schema selects the fields, if the definitions nested in it do. -/
theorem AcceptedSchema.LiesIn.selects {s u : Store} {t : AcceptedSchema} {v : Value}
    {fields : List (Value × Value)} (lies : t.LiesIn s fields)
    (inner : ∀ name element, (name, .nested element) ∈ t.selected →
      ∀ w, element.definition.shape.StandsAt u w → u.Selects element w)
    (stands : t.definition.shape.StandsAt u v) : u.Selects t v := by
  obtain ⟨_, cell, properties, _, rfl, ⟨entries, cell', stand⟩, rfl⟩ := stands
  obtain ⟨nodup, texts⟩ := lies.keys stand
  have keys : entries.map Prod.fst = t.selected.map fun f => .ofText f.1 := by
    rw [Shape.keys_of_entriesStandAt stand, t.keys_properties]
  -- The items of a selected field are those of its kind.
  have itemized {name : Text} {tag : AcceptedTag} {shape : Shape} (member : (name, tag) ∈ t.selected)
      (has : ∀ target, ∃ kind, tag.kind? target = some kind ∧ kind.items? = some shape) :
      ∃ items, u.items? entries name = some items ∧ shape.StandsAt u items := by
    obtain ⟨o, kind, maps, listed⟩ := AcceptedSchema.exists_property member
    obtain ⟨kind', maps', shown⟩ := has o.targetText
    obtain rfl := Option.some.inj (maps.symm.trans maps')
    obtain ⟨w, entry, standsField⟩ := Property.exists_of_mem stand listed
    exact Store.exists_items? (lookupText?_of_mem nodup texts entry) standsField shown
  refine .mk cell cell' keys nodup ?_ ?_ ?_
  · rintro ⟨name, tag⟩ member strings
    obtain ⟨items, found, standsItems⟩ := itemized member fun target =>
      ⟨.texts, strings.kind?_eq target, rfl⟩
    obtain ⟨values, here, _, _, rfl, rfl, rfl⟩ := standsItems
    exact ⟨items, found, here⟩
  · intro name element member
    obtain ⟨items, found, -⟩ := itemized member fun target => ⟨_, rfl, rfl⟩
    rw [found]
    rfl
  · intro name element items member found
    obtain ⟨items', found', standsItems⟩ := itemized member fun target => ⟨_, rfl, rfl⟩
    obtain rfl := Option.some.inj (found.symm.trans found')
    exact inner name element member items standsItems

mutual

/-- The definition of the schema in a type selects its fields. -/
theorem AcceptedTag.LiesAt.selects {s u : Store} {v : Value} {element : AcceptedSchema} :
    {tag : AcceptedTag} → tag.LiesAt s v → tag = .nested element →
      ∀ w, element.definition.shape.StandsAt u w → u.Selects element w
  | .nested _, lies, same, w, stands => by
    obtain ⟨first, rest, entries, -, -, inside⟩ := lies
    obtain rfl := AcceptedTag.nested.inj same
    exact inside.selects (AcceptedSchema.LiesIn.selects_nested inside) stands

/-- The definitions nested in the definition of a schema select their fields. -/
theorem AcceptedSchema.LiesIn.selects_nested {s u : Store} :
    {t : AcceptedSchema} → {fields : List (Value × Value)} → t.LiesIn s fields →
      ∀ name element, (name, .nested element) ∈ t.selected →
        ∀ w, element.definition.shape.StandsAt u w → u.Selects element w
  | .done, _, _, _, _, member, _, _ => by cases member
  | .field name tag options rest, _, lies, name', element, member, w, stands => by
    obtain ⟨v, f, later, -, -, type, -, -, inside⟩ := lies
    have later := AcceptedSchema.LiesIn.selects_nested (u := u) inside name' element
    rw [AcceptedSchema.selected_field] at member
    split at member
    · rcases List.mem_cons.mp member with same | member
      · exact AcceptedTag.LiesAt.selects type (Prod.mk.inj same).2.symm w stands
      · exact later member w stands
    · exact later member w stands

end

/-- What normalizing an accepted schema comes to is a definition that selects its fields, where it
is placed. -/
theorem definition_selects_fields {s : Store} {t : AcceptedSchema} {v : Value}
    (held : t.LiesAt s v) {name : Text} {j : Journal} {shape : Shape}
    (made : (s.definitionOf v name j).1 = .ok shape) :
    (shape.place s).2.Selects t (shape.place s).1 := by
  rw [held.definitionOf_eq name, Visit.pass_apply] at made
  cases failed : (t.visits name).findSome? Visit.fault? with
  | some fault => simp [failed] at made
  | none =>
    rw [failed] at made
    obtain rfl := Except.ok.inj made
    obtain ⟨entries, -, inside⟩ := held
    exact inside.selects inside.selects_nested (Shape.standsAt_place t.definition.shape s)

namespace SelectedSample

open NestedSample (options declaration options_lieIn)

/-- A schema with a private field, an empty list, an object, a list of a type, nothing as a type and
a list that begins with a schema of an array and an object. -/
def schema : AcceptedSchema :=
  .field (text "__key") (.plain (.scalar (.fieldType .array))) options <|
  .field (text "tags") .list options <|
  .field (text "any") (.plain (.scalar (.fieldType .object))) options <|
  .field (text "sizes") .list options <|
  .field (text "none") (.plain .null) options <|
  .field (text "team")
    (.nested <|
      .field (text "words") (.plain (.scalar (.fieldType .array))) options <|
      .field (text "any") (.plain (.scalar (.fieldType .object))) options .done)
    options .done

/-- A store that holds the schema at its last place. -/
def store : Store where
  cells := #[
    .list [],
    .list [.scalar (.fieldType .number)],
    .field (declaration (.scalar (.fieldType .array))),
    .field (declaration (.scalar (.fieldType .object))),
    .map [(.ofText (text "words"), .ref 2), (.ofText (text "any"), .ref 3)],
    .schema (.ref 4),
    .list [.ref 5, .scalar (.int 1)],
    .field (declaration (.ref 0)),
    .field (declaration (.ref 1)),
    .field (declaration .null),
    .field (declaration (.ref 6)),
    .map [(.ofText (text "__key"), .ref 2), (.ofText (text "tags"), .ref 7),
      (.ofText (text "any"), .ref 3), (.ofText (text "sizes"), .ref 8),
      (.ofText (text "none"), .ref 9), (.ofText (text "team"), .ref 10)],
    .schema (.ref 11)]
  labels := 1
  given := []

theorem schema_liesAt : schema.LiesAt store (.ref 12) := by
  refine ⟨_, rfl, ?_⟩
  refine ⟨_, _, _, rfl, rfl, ⟨rfl, nofun, rfl⟩, options_lieIn rfl _, by decide, ?_⟩
  refine ⟨_, _, _, rfl, rfl, ⟨_, rfl, nofun⟩, options_lieIn rfl _, by decide, ?_⟩
  refine ⟨_, _, _, rfl, rfl, ⟨rfl, nofun, rfl⟩, options_lieIn rfl _, by decide, ?_⟩
  refine ⟨_, _, _, rfl, rfl, ⟨_, rfl, ?_⟩, options_lieIn rfl _, by decide, ?_⟩
  · intro first listed fields found
    obtain rfl := Option.some.inj listed
    cases found
  refine ⟨_, _, _, rfl, rfl, ⟨rfl, nofun, rfl⟩, options_lieIn rfl _, by decide, ?_⟩
  refine ⟨_, _, _, rfl, rfl, ?_, options_lieIn rfl _, by decide, rfl⟩
  refine ⟨_, _, _, rfl, rfl, ?_⟩
  refine ⟨_, _, _, rfl, rfl, ⟨rfl, nofun, rfl⟩, options_lieIn rfl _, by decide, ?_⟩
  exact ⟨_, _, _, rfl, rfl, ⟨rfl, nofun, rfl⟩, options_lieIn rfl _, by decide, rfl⟩

end SelectedSample

open SelectedSample in
/-- In the sample three fields are selected, one of them with a definition nested in it. -/
theorem definition_of_sample_selects_fields :
    schema.selected.map Prod.fst = ["tags", "sizes", "team"].map text ∧
      (store.definitionOf (.ref 12) (text "M") ⟨none, []⟩).1 = .ok schema.definition.shape ∧
      (schema.definition.shape.place store).2.Selects schema
        (schema.definition.shape.place store).1 := by
  have made : (store.definitionOf (.ref 12) (text "M") ⟨none, []⟩).1 =
      .ok schema.definition.shape := by
    rw [schema_liesAt.definitionOf_eq (text "M")]
    rfl
  exact ⟨by decide, made, definition_selects_fields schema_liesAt made⟩

end SwaggerDoc
