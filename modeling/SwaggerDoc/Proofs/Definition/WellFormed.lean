import SwaggerDoc.Proofs.Definition.Grammar

/-!
Definitions are well formed.

A descriptor is made in two steps, what the type maps to and the modifiers added to it. Whatever
modifiers the options of an accepted field come with, the entries together have the form of a
description; the items of an array come from the schema in its type, and the induction is on how
schemas are nested in types.
-/

namespace SwaggerDoc

/-! ## Entries that stand under their keys -/

section Standing

variable {u : Store} {record : List (String × Shape)} {entries : List (Value × Value)}
  {key : String}

theorem Shape.behind?_of_lookup {shape : Shape}
    (stand : Shape.EntriesStandAt u (record.map fun (k, shape) => (.ofText (text k), shape)) entries)
    (found : record.lookup key = some shape) :
    ∃ v, Store.behind? entries key = some v ∧ shape.StandsAt u v := by
  have behind := Shape.behind?_of_entriesStandAt key stand
  rw [found] at behind
  exact behind

/-- What stands behind the key of an optional entry stands for what the option holds. -/
theorem Shape.exists_of_behind? {α : Type} {o : Option α} {f : α → Shape} {v : Value}
    (stand : Shape.EntriesStandAt u (record.map fun (k, shape) => (.ofText (text k), shape)) entries)
    (found : record.lookup key = o.map f) (behind : Store.behind? entries key = some v) :
    ∃ a, o = some a ∧ (f a).StandsAt u v := by
  cases o with
  | none =>
    have absent := Shape.behind?_of_entriesStandAt key stand
    simp only [found, Option.map_none] at absent
    rw [absent] at behind
    cases behind
  | some a =>
    obtain ⟨w, behind', stands⟩ := Shape.behind?_of_lookup stand found
    obtain rfl := Option.some.inj (behind.symm.trans behind')
    exact ⟨a, rfl, stands⟩

theorem Shape.isSome_behind?
    (stand : Shape.EntriesStandAt u (record.map fun (k, shape) => (.ofText (text k), shape)) entries)
    (key : String) : (Store.behind? entries key).isSome = (record.lookup key).isSome := by
  have behind := Shape.behind?_of_entriesStandAt key stand
  cases found : record.lookup key with
  | none =>
    rw [found] at behind
    rw [behind]
    rfl
  | some shape =>
    obtain ⟨v, behind', -⟩ := Shape.behind?_of_lookup stand found
    rw [behind']
    rfl

end Standing

/-! ## Allowable values -/

theorem Check.Bound.isBound_of_number? {b : Option Check.Bound} {v : Value}
    (number : Check.Bound.number? b = some v) : Store.IsBound v := by
  obtain ⟨bound, kept, rfl⟩ := Option.map_eq_some_iff.mp number
  obtain ⟨-, number⟩ := Option.filter_eq_some_iff.mp kept
  cases bound with
  | whole i => exact .inl ⟨i, rfl⟩
  | real f => exact .inr ⟨f, rfl, by simpa [isNumber] using number⟩

theorem Shape.eq_of_allStandAt_values {u : Store} :
    {vs values : List Value} → Shape.AllStandAt u (vs.map Shape.value) values → values = vs
  | [], _, stand => stand
  | _ :: _, _, stand => by
    obtain ⟨v, later, rfl, rfl, standLater⟩ := stand
    rw [Shape.eq_of_allStandAt_values standLater]

theorem Allowable.isRange_of_standsAt {u : Store} {least greatest : Option Value} {v : Value}
    (stands : (Allowable.range least greatest).shape.StandsAt u v)
    (given : least.isSome ∨ greatest.isSome)
    (bounds : ∀ b, least = some b ∨ greatest = some b → Store.IsBound b) : u.IsRange v := by
  refine ⟨least, greatest, ?_, given, bounds⟩
  obtain ⟨entries, cell, type, rest, rfl, rfl, stand⟩ := stands
  rw [cell]
  cases least with
  | none =>
    cases greatest with
    | none =>
      obtain rfl := stand
      rfl
    | some b =>
      obtain ⟨_, _, rfl, rfl, rfl⟩ := stand
      rfl
  | some a =>
    cases greatest with
    | none =>
      obtain ⟨_, _, rfl, rfl, rfl⟩ := stand
      rfl
    | some b =>
      obtain ⟨_, _, rfl, rfl, _, _, rfl, rfl, rfl⟩ := stand
      rfl

theorem Allowable.isChoices_of_standsAt {u : Store} {choices : List Text} {v : Value}
    (stands : (Allowable.list (choices.map fun t => .value (.ofText t))).shape.StandsAt u v)
    (given : choices ≠ []) : u.IsChoices v := by
  obtain ⟨entries, cell, _, _, rfl, rfl, list, _, rfl, ⟨values, items, stand⟩, rfl⟩ := stands
  have texts : (choices.map fun t => Choice.value (.ofText t)).map Choice.shape =
      (choices.map Value.ofText).map Shape.value := by
    simp [Choice.shape]
  rw [texts] at stand
  obtain rfl := Shape.eq_of_allStandAt_values stand
  exact ⟨list, choices, cell, items, given⟩

theorem Options.isAllowed_of_standsAt {u : Store} {o : Options} {allowed : Allowable} {v : Value}
    (allows : o.allowable = some allowed) (stands : allowed.shape.StandsAt u v) :
    u.IsChoices v ∨ u.IsRange v := by
  rw [Options.allowable] at allows
  split at allows
  · next given =>
    obtain rfl := Option.some.inj allows
    refine .inr (Allowable.isRange_of_standsAt stands (by simpa using given) ?_)
    rintro b (least | greatest)
    · exact Check.Bound.isBound_of_number? least
    · exact Check.Bound.isBound_of_number? greatest
  · split at allows
    · cases allows
    · next given =>
      obtain rfl := Option.some.inj allows
      exact .inl (Allowable.isChoices_of_standsAt stands (by simpa using given))

/-! ## Descriptors -/

theorem Kind.typeName_mem (kind : Kind) :
    kind.typeName ∈ ["string", "integer", "boolean", "array"] := by
  cases kind <;> simp [Kind.typeName]

theorem Kind.format_typeName {kind : Kind} {format : String}
    (formatted : kind.format? = some format) :
    format = "int64" ∧ kind.typeName = "integer" ∨ format = "date" ∧ kind.typeName = "string" := by
  cases kind <;> simp_all [Kind.format?, Kind.typeName]

theorem Kind.format?_of_integer {kind : Kind} (integer : kind.typeName = "integer") :
    kind.format? = some "int64" := by
  cases kind <;> simp_all [Kind.format?, Kind.typeName]

theorem Kind.isSome_items? (kind : Kind) : kind.items?.isSome ↔ kind.typeName = "array" := by
  cases kind <;> simp [Kind.items?, Kind.typeName]

theorem Kind.typeName_of_reference? {kind : Kind} {path : Text}
    (refers : kind.reference? = some path) :
    kind.typeName = "string" ∧ ∃ target, path = definitionsPath ++ target := by
  cases kind <;> simp_all [Kind.reference?, Kind.typeName, eq_comm]

theorem Value.moved_ne_null {v : Value} (move : Place → Place) (present : v ≠ .null) :
    v.moved move ≠ .null := by
  cases v with
  | scalar x => exact present
  | ref p => nofun

/-- The keys of a property are texts that descriptors can have as keys, and each comes once. -/
theorem Property.keys_of_entriesStandAt {u : Store} {property : Property}
    {entries : List (Value × Value)}
    (stand : Shape.EntriesStandAt u
      (property.record.map fun (k, shape) => (.ofText (text k), shape)) entries) :
    (entries.map Prod.fst).Nodup ∧
      ∀ e ∈ entries, ∃ key ∈ Store.descriptorKeys, e.1 = .ofText (text key) := by
  obtain ⟨kind, description, sample, allowable⟩ := property
  have known := Property.keys_nodup kind description sample allowable
  have keys : entries.map Prod.fst =
      ((Property.mk kind description sample allowable).record.map Prod.fst).map
        fun key => Value.ofText (text key) := by
    rw [Shape.keys_of_entriesStandAt stand, List.map_map, List.map_map]
    rfl
  constructor
  · rw [keys]
    exact List.Pairwise.map _
      (fun a b different same => different (text_injective (by simpa using same))) known.1
  · intro e member
    have key : e.1 ∈ entries.map Prod.fst := List.mem_map_of_mem member
    rw [keys] at key
    obtain ⟨k, listed, same⟩ := List.mem_map.mp key
    exact ⟨k, known.2 k listed, same.symm⟩

/-- The entries of a property are a description, whatever options it comes from. -/
theorem Options.isDescription {u : Store} {o : Options} {kind : Kind}
    {entries : List (Value × Value)}
    (stand : Shape.EntriesStandAt u
      ((o.property kind).record.map fun (k, shape) => (.ofText (text k), shape)) entries) :
    u.IsDescription entries := by
  obtain ⟨nodup, known⟩ := Property.keys_of_entriesStandAt stand
  have type : Store.behind? entries "type" = some (.ofText (text kind.typeName)) := by
    obtain ⟨v, behind, rfl⟩ := Shape.behind?_of_lookup stand (Property.lookup_type kind _ _ _)
    exact behind
  have type_eq {name : String} :
      Store.behind? entries "type" = some (.ofText (text name)) ↔ kind.typeName = name := by
    rw [type]
    refine ⟨fun same => text_injective ?_, fun same => by rw [same]⟩
    simpa using same
  refine ⟨nodup, known, ?_, ?_, ?_, ?_, ?_, ?_, ?_, ?_⟩
  · exact ⟨kind.typeName, kind.typeName_mem, type⟩
  · intro f behind
    obtain ⟨format, formatted, rfl⟩ :=
      Shape.exists_of_behind? stand (Property.lookup_format kind _ _ _) behind
    rw [type_eq, type_eq]
    rcases kind.format_typeName formatted with ⟨rfl, integer⟩ | ⟨rfl, string⟩
    · exact .inl ⟨rfl, integer⟩
    · exact .inr ⟨rfl, string⟩
  · intro integer
    have found := Property.lookup_format kind o.describing? o.example? o.allowable
    rw [Kind.format?_of_integer (type_eq.mp integer)] at found
    obtain ⟨v, behind, rfl⟩ := Shape.behind?_of_lookup stand found
    exact behind
  · rw [Shape.isSome_behind? stand, type_eq, ← kind.isSome_items?]
    exact iff_of_eq (congrArg (·.isSome = true) (Property.lookup_items kind _ _ _))
  · intro r behind
    obtain ⟨path, refers, rfl⟩ :=
      Shape.exists_of_behind? stand (Property.lookup_reference kind _ _ _) behind
    obtain ⟨string, target, rfl⟩ := Kind.typeName_of_reference? refers
    exact ⟨type_eq.mpr string, target, rfl⟩
  · intro d behind
    obtain ⟨w, describes, rfl⟩ :=
      Shape.exists_of_behind? stand (Property.lookup_description kind _ _ _) behind
    obtain ⟨words, kept, rfl⟩ := Option.map_eq_some_iff.mp describes
    obtain ⟨-, nonempty⟩ := Option.filter_eq_some_iff.mp kept
    exact ⟨words, by simpa using nonempty, rfl⟩
  · intro x behind
    obtain ⟨w, exemplifies, move, rfl⟩ :=
      Shape.exists_of_behind? stand (Property.lookup_example kind _ _ _) behind
    rw [Options.example?] at exemplifies
    split at exemplifies
    · cases exemplifies
    · next present =>
      obtain rfl := Option.some.inj exemplifies
      exact Value.moved_ne_null move present
  · intro a behind
    obtain ⟨allowed, allows, stands⟩ :=
      Shape.exists_of_behind? stand (Property.lookup_allowableValues kind _ _ _) behind
    exact Options.isAllowed_of_standsAt allows stands

/-- A property is a descriptor if the items that it has are strings or a definition. -/
theorem Options.isDescriptor {u : Store} {o : Options} {kind : Kind} {v : Value}
    (stands : (o.property kind).shape.StandsAt u v)
    (nested : ∀ item, kind = .records item → ∀ w, item.shape.StandsAt u w → u.IsDefinition w) :
    u.IsDescriptor v := by
  rw [Property.shape_eq] at stands
  obtain ⟨entries, cell, stand⟩ := stands
  refine .mk cell (Options.isDescription stand) fun items behind notStrings => ?_
  have found := Property.lookup_items kind o.describing? o.example? o.allowable
  obtain ⟨shape, itemized, standsItems⟩ :=
    Shape.exists_of_behind? stand (found.trans Option.map_id'.symm) behind
  cases kind with
  | texts =>
    obtain rfl := Option.some.inj itemized
    obtain ⟨values, strings, _, _, rfl, rfl, rfl⟩ := standsItems
    exact absurd strings notStrings
  | records item =>
    obtain rfl := Option.some.inj itemized
    exact nested item rfl items standsItems
  | _ => cases itemized

/-! ## Definitions -/

theorem AcceptedTag.nested_of_kind? {tag : AcceptedTag} {target : Text} {item : Definition}
    (maps : tag.kind? target = some (.records item)) :
    ∃ element, tag = .nested element ∧ item = element.definition := by
  cases tag with
  | nested element =>
    cases maps
    exact ⟨element, rfl, rfl⟩
  | list => cases maps
  | plain v =>
    cases v with
    | ref p => cases maps
    | scalar x =>
      cases x with
      | fieldType t => cases t <;> cases maps
      | _ => cases maps

/-- The properties are those of some of the fields, in their order. -/
theorem Property.keys_entriesOf :
    (properties : List (Name × Property)) →
      (Property.entriesOf properties).map Prod.fst = properties.map fun p => .scalar p.1.scalar
  | [] => rfl
  | (name, property) :: rest => by
    simp only [Property.entriesOf, List.map_cons, Property.keys_entriesOf rest]

theorem AcceptedSchema.LiesIn.keys {s u : Store} {t : AcceptedSchema}
    {fields entries : List (Value × Value)} (lies : t.LiesIn s fields)
    (stand : Shape.EntriesStandAt u (Property.entriesOf t.collected.properties) entries) :
    (entries.map Prod.fst).Nodup ∧ ∀ e ∈ entries, ∃ name, e.1 = .ofText name := by
  have keys : entries.map Prod.fst =
      (t.collected.properties.map Prod.fst).map fun name => .scalar name.scalar := by
    rw [Shape.keys_of_entriesStandAt stand, Property.keys_entriesOf, List.map_map]
    rfl
  have some_names : (entries.map Prod.fst).Sublist (t.names.map Value.ofText) := by
    have sub := (AcceptedSchema.properties_sublist_names t).map fun name => Value.scalar name.scalar
    rw [← keys, List.map_map] at sub
    exact sub
  have nodup : (t.names.map Value.ofText).Nodup :=
    List.Pairwise.map _ (fun a b different same => different (by simpa using same)) lies.names_nodup
  refine ⟨some_names.nodup nodup, ?_⟩
  intro e member
  obtain ⟨name, -, same⟩ := List.mem_map.mp (some_names.subset (List.mem_map_of_mem member))
  exact ⟨name, same.symm⟩

mutual

/-- The definition of the schema in a type is well formed. -/
theorem AcceptedTag.LiesAt.isDefinition {s u : Store} {v : Value} {element : AcceptedSchema} :
    {tag : AcceptedTag} → tag.LiesAt s v → tag = .nested element →
      ∀ w, element.definition.shape.StandsAt u w → u.IsDefinition w
  | .nested _, lies, same, w, stands => by
    obtain ⟨first, rest, entries, -, -, inside⟩ := lies
    obtain rfl := AcceptedTag.nested.inj same
    obtain ⟨_, cell, properties, _, rfl, ⟨values, cell', stand⟩, rfl⟩ := stands
    obtain ⟨nodup, names⟩ := inside.keys stand
    exact .mk cell cell' nodup names (AcceptedSchema.LiesIn.isDescriptor inside stand)

/-- The properties of a schema are descriptors. -/
theorem AcceptedSchema.LiesIn.isDescriptor {s u : Store} :
    {t : AcceptedSchema} → {fields entries : List (Value × Value)} → t.LiesIn s fields →
      Shape.EntriesStandAt u (Property.entriesOf t.collected.properties) entries →
      ∀ e ∈ entries, u.IsDescriptor e.2
  | .done, _, _, _, stand, e, member => by
    obtain rfl := stand
    cases member
  | .field name tag options rest, _, entries, lies, stand, e, member => by
    obtain ⟨v, f, later, -, -, type, -, -, inside⟩ := lies
    rw [AcceptedSchema.collected] at stand
    split at stand
    · exact AcceptedSchema.LiesIn.isDescriptor inside stand e member
    · split at stand
      · exact AcceptedSchema.LiesIn.isDescriptor inside stand e member
      · next kind maps =>
        obtain ⟨w, others, rfl, stands, standOthers⟩ := stand
        rcases List.mem_cons.mp member with rfl | member
        · refine Options.isDescriptor stands fun item isRecords w standsItem => ?_
          obtain ⟨element, nested, rfl⟩ := AcceptedTag.nested_of_kind? (isRecords ▸ maps)
          exact AcceptedTag.LiesAt.isDefinition type nested w standsItem
        · exact AcceptedSchema.LiesIn.isDescriptor inside standOthers e member

end

/-- What normalizing an accepted schema comes to is a well-formed definition where it is placed. -/
theorem definition_is_well_formed {s : Store} {t : AcceptedSchema} {v : Value}
    (held : t.LiesAt s v) {name : Text} {j : Journal} {shape : Shape}
    (made : (s.definitionOf v name j).1 = .ok shape) :
    (shape.place s).2.IsDefinition (shape.place s).1 := by
  rw [held.definitionOf_eq name, Visit.pass_apply] at made
  cases failed : (t.visits name).findSome? Visit.fault? with
  | some fault => simp [failed] at made
  | none =>
    rw [failed] at made
    obtain rfl := Except.ok.inj made
    obtain ⟨entries, -, inside⟩ := held
    obtain ⟨_, cell, properties, _, rfl, ⟨values, cell', stand⟩, rfl⟩ :=
      Shape.standsAt_place t.definition.shape s
    obtain ⟨nodup, names⟩ := inside.keys stand
    exact .mk cell cell' nodup names (inside.isDescriptor stand)

namespace DescribedSample

/-- A schema with a list of choices, a range with a bound that is no number, an example and a
reference in a schema of its own. -/
def draft : SchemaDraft :=
  [ (text "state", .fresh (.plain (.scalar (.fieldType .string)))
      ⟨true, some (text "Where it is."), .ofText (text "open"), [text "open", text "closed"],
        none, none, none, false⟩),
    (text "size", .fresh (.plain (.scalar (.fieldType .number)))
      ⟨false, none, .null, [text "small"], some (.whole 0), some (.real (.nan 0)), none, false⟩),
    (text "team", .fresh
      (.list [.schema
        [ (text "owner", .fresh (.plain (.scalar (.fieldType .objectId)))
            ⟨false, some [], .null, [], none, none, some (text "Person"), false⟩) ]])
      ⟨false, none, .null, [], none, none, none, true⟩) ]

def store : Store := (draft.place .empty).2

def schema : AcceptedSchema :=
  .field (text "state") (.plain (.scalar (.fieldType .string)))
    ⟨true, some (text "Where it is."), .ofText (text "open"), [text "open", text "closed"],
      none, none, none, false⟩ <|
  .field (text "size") (.plain (.scalar (.fieldType .number)))
    ⟨false, none, .null, [text "small"], some (.whole 0), some (.real (.nan 0)), none, false⟩ <|
  .field (text "team")
    (.nested <| .field (text "owner") (.plain (.scalar (.fieldType .objectId)))
      ⟨false, some [], .null, [], none, none, some (text "Person"), false⟩ .done)
    ⟨false, none, .null, [], none, none, none, true⟩ .done

theorem schema_liesAt : schema.LiesAt store (draft.place .empty).1 := by
  refine ⟨_, rfl, ?_⟩
  refine ⟨_, _, _, rfl, rfl, ⟨rfl, nofun, rfl⟩, ⟨rfl, rfl, rfl, rfl, rfl, rfl, rfl, rfl⟩,
    by decide, ?_⟩
  refine ⟨_, _, _, rfl, rfl, ⟨rfl, nofun, rfl⟩, ⟨rfl, rfl, rfl, rfl, rfl, rfl, rfl, rfl⟩,
    by decide, ?_⟩
  refine ⟨_, _, _, rfl, rfl, ?_, ⟨rfl, rfl, rfl, rfl, rfl, rfl, rfl, rfl⟩, by decide, rfl⟩
  refine ⟨_, _, _, rfl, rfl, ?_⟩
  exact ⟨_, _, _, rfl, rfl, ⟨rfl, nofun, rfl⟩, ⟨rfl, rfl, rfl, rfl, rfl, rfl, rfl, rfl⟩,
    by decide, rfl⟩

end DescribedSample

/-- In the sample the range replaces the choices, and the reference is a string in the end. -/
theorem definition_of_described_sample :
    (DescribedSample.store.definitionOf (DescribedSample.draft.place .empty).1
        (text "Task") ⟨none, []⟩).1 = .ok DescribedSample.schema.definition.shape ∧
      (DescribedSample.schema.definition.shape.place DescribedSample.store).2.IsDefinition
        (DescribedSample.schema.definition.shape.place DescribedSample.store).1 := by
  have made : (DescribedSample.store.definitionOf (DescribedSample.draft.place .empty).1
      (text "Task") ⟨none, []⟩).1 = .ok DescribedSample.schema.definition.shape := by
    rw [DescribedSample.schema_liesAt.definitionOf_eq (text "Task")]
    rfl
  exact ⟨made, definition_is_well_formed DescribedSample.schema_liesAt made⟩

end SwaggerDoc
