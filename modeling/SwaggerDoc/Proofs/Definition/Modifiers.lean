import SwaggerDoc.Proofs.Definition.References
import SwaggerDoc.Proofs.Definition.Selected
import SwaggerDoc.Proofs.Store.Guarded

/-!
The modifiers of fields in their descriptors.

`AcceptedSchema.IsDescribedBy` goes through a schema and through what its definition shows, side by
side: one descriptor for each field that has a property, in the order declared, and the schema in
the type of a field beside the items of its descriptor. `Options.Survive` says what a descriptor
has of the modifiers of its field, key by key. What is shown comes from the entries of a property,
so each key is looked up there once.
-/

namespace SwaggerDoc

/-! ## Descriptors as they show -/

namespace Tree

/-- A text. -/
def ofText (t : Text) : Tree := .scalar (.string t)

/-- What is shown behind a key. -/
def behind? (entries : List (Tree × Tree)) (key : String) : Option Tree :=
  (entries.find? (·.1.isKey key)).map Prod.snd

/-- What is shown behind a key of the mapping behind another. -/
def inside? (entries : List (Tree × Tree)) (outer key : String) : Option Tree :=
  match behind? entries outer with
  | some (.map inner) => behind? inner key
  | _ => none

end Tree

open SwaggerDoc.Tree

/-- One of the bounds is a number other than the not-a-number. -/
def Options.IsBounded (o : Options) : Prop :=
  (∃ b, o.least = some b ∧ b.isNumber = true) ∨ ∃ b, o.greatest = some b ∧ b.isNumber = true

/-- The tag asks for a reference. -/
def AcceptedTag.IsReference (tag : AcceptedTag) : Prop :=
  tag = .plain (.scalar (.fieldType .objectId)) ∨ tag = .plain (.scalar (.fieldType .oid))

/-- The descriptor of a field with the options and the type has what the modifiers come to, and
nothing under their keys otherwise. -/
structure Options.Survive (o : Options) (s : Store) (tag : AcceptedTag)
    (descriptor : List (Tree × Tree)) : Prop where
  /-- There is a description exactly if one is given that is not empty. -/
  description : ∀ x, behind? descriptor "description" = some x ↔
    ∃ words, o.description = some words ∧ words ≠ [] ∧ x = .ofText words
  /-- There is an example exactly if one is given, whether or not it counts as present. -/
  sample : ∀ x, behind? descriptor "example" = some x ↔ o.sample ≠ .null ∧ x = s.unfold o.sample
  least : ∀ x, inside? descriptor "allowableValues" "min" = some x ↔
    ∃ b, o.least = some b ∧ b.isNumber = true ∧ x = s.unfold b.value
  greatest : ∀ x, inside? descriptor "allowableValues" "max" = some x ↔
    ∃ b, o.greatest = some b ∧ b.isNumber = true ∧ x = s.unfold b.value
  /-- The choices count only without a bound that is a number. -/
  list : inside? descriptor "allowableValues" "valueType" = some (.ofText (text "LIST")) ↔
    o.choices ≠ [] ∧ ¬ o.IsBounded
  values : ∀ x, inside? descriptor "allowableValues" "values" = some x ↔
    (o.choices ≠ [] ∧ ¬ o.IsBounded) ∧ x = .list (o.choices.map .ofText)
  range : inside? descriptor "allowableValues" "valueType" = some (.ofText (text "RANGE")) ↔
    o.IsBounded
  unlimited : behind? descriptor "allowableValues" = none ↔ o.choices = [] ∧ ¬ o.IsBounded
  /-- There is a reference exactly if the tag asks for one. -/
  reference : ∀ x, behind? descriptor "$ref" = some x ↔
    tag.IsReference ∧ x = .ofText (text "#/definitions/" ++ o.target.getD [])

mutual

/-- The items of the descriptor show the definition of the schema in the type, if there is one. -/
def AcceptedTag.IsDescribedBy (s : Store) : AcceptedTag → List (Tree × Tree) → Prop
  | .nested element, descriptor =>
    ∃ entries, behind? descriptor "items" =
        some (.map [(.ofText (text "properties"), .map entries)]) ∧
      element.IsDescribedBy s entries
  | _, _ => True

/-- The entries show the properties of the schema: one descriptor for each public field whose type
maps to something, with what the modifiers of the field come to. -/
def AcceptedSchema.IsDescribedBy (s : Store) : AcceptedSchema → List (Tree × Tree) → Prop
  | .done, entries => entries = []
  | .field name tag options rest, entries =>
    if !isPrivate name && tag.isSelected then
      ∃ descriptor later, entries = (.ofText name, .map descriptor) :: later ∧
        options.Survive s tag descriptor ∧ tag.IsDescribedBy s descriptor ∧
        rest.IsDescribedBy s later
    else rest.IsDescribedBy s entries

end

/-! ## What is behind the keys of a record -/

section Keys

variable {s : Store}

theorem Tree.behind?_shown (record : List (String × Shape)) (key : String) :
    behind? (Shape.shown s record) key = (record.lookup key).map (Shape.tree s) := by
  induction record with
  | nil => rfl
  | cons entry rest ih =>
    obtain ⟨k, shape⟩ := entry
    have front : (s.unfold (.ofText (text k))).isKey key = (text k == text key) := rfl
    by_cases same : key = k
    · subst same
      simp [behind?, Shape.shown, front]
    · have different : text k ≠ text key := fun h => same (text_injective h).symm
      have skipped : behind? (Shape.shown s ((k, shape) :: rest)) key =
          behind? (Shape.shown s rest) key := by
        simp [behind?, Shape.shown, front, different]
      rw [skipped, ih, List.lookup_cons, beq_eq_false_iff_ne.mpr same]

end Keys

/-! ## Allowable values by their keys -/

namespace Allowable

/-- The entries of allowable values. -/
def record : Allowable → List (String × Shape)
  | .list choices => [("valueType", .ofString "LIST"), ("values", .list (choices.map Choice.shape))]
  | .range least greatest =>
    [("valueType", .ofString "RANGE")] ++ (least.map fun v => ("min", Shape.value v)).toList
      ++ (greatest.map fun v => ("max", Shape.value v)).toList

theorem shape_eq (a : Allowable) : a.shape = .record a.record := by
  cases a <;> rfl

end Allowable

/-- A property has a reference exactly if the tag asks for one. -/
theorem AcceptedTag.reference?_eq_some {tag : AcceptedTag} {target path : Text} {kind : Kind}
    (maps : tag.kind? target = some kind) :
    kind.reference? = some path ↔ tag.IsReference ∧ path = definitionsPath ++ target := by
  cases tag with
  | nested element =>
    obtain rfl := Option.some.inj maps
    simp [Kind.reference?, IsReference]
  | list =>
    obtain rfl := Option.some.inj maps
    simp [Kind.reference?, IsReference]
  | plain v =>
    cases v with
    | ref p => cases maps
    | scalar x =>
      cases x with
      | fieldType t =>
        cases t with
        | object => cases maps
        | _ =>
          obtain rfl := Option.some.inj maps
          simp [Kind.reference?, IsReference, eq_comm]
      | _ => cases maps

theorem Check.Bound.number?_eq_some {b? : Option Bound} {v : Value} :
    number? b? = some v ↔ ∃ b, b? = some b ∧ b.isNumber = true ∧ v = b.value := by
  rw [number?, Option.map_eq_some_iff]
  constructor
  · rintro ⟨b, kept, rfl⟩
    obtain ⟨given, number⟩ := Option.filter_eq_some_iff.mp kept
    exact ⟨b, given, number, rfl⟩
  · rintro ⟨b, given, number, rfl⟩
    exact ⟨b, Option.filter_eq_some_iff.mpr ⟨given, number⟩, rfl⟩

namespace Options

variable {o : Options} {s : Store} {kind : Kind} {x : Tree}

theorem isSome_number? {b? : Option Check.Bound} :
    (Check.Bound.number? b?).isSome = true ↔ ∃ b, b? = some b ∧ b.isNumber = true := by
  rw [Option.isSome_iff_exists]
  constructor
  · rintro ⟨v, number⟩
    obtain ⟨b, given, number, -⟩ := Check.Bound.number?_eq_some.mp number
    exact ⟨b, given, number⟩
  · rintro ⟨b, given, number⟩
    exact ⟨b.value, Check.Bound.number?_eq_some.mpr ⟨b, given, number, rfl⟩⟩

theorem isBounded_iff : o.IsBounded ↔ (o.lower?.isSome || o.upper?.isSome) = true := by
  rw [Bool.or_eq_true, lower?, upper?, isSome_number?, isSome_number?, IsBounded]

/-- The values allowed are a range if a bound is a number, and otherwise the choices if there are
any. -/
theorem allowable_cases (o : Options) :
    (o.IsBounded ∧ o.allowable = some (.range o.lower? o.upper?)) ∨
    ((o.choices ≠ [] ∧ ¬ o.IsBounded) ∧
      o.allowable = some (.list (o.choices.map fun t => .value (.ofText t)))) ∨
    ((o.choices = [] ∧ ¬ o.IsBounded) ∧ o.allowable = none) := by
  by_cases bounded : o.IsBounded
  · exact .inl ⟨bounded, if_pos (isBounded_iff.mp bounded)⟩
  · have unlimited : o.allowable = if o.choices.isEmpty then none
        else some (.list (o.choices.map fun t => .value (.ofText t))) :=
      if_neg fun some => bounded (isBounded_iff.mpr some)
    rw [unlimited]
    cases choices : o.choices with
    | nil => exact .inr (.inr ⟨⟨rfl, bounded⟩, rfl⟩)
    | cons t rest => exact .inr (.inl ⟨⟨List.cons_ne_nil t rest, bounded⟩, rfl⟩)

/-- A bound that is a number is shown as it is. -/
theorem map_number?_eq_some {b? : Option Check.Bound} :
    ((Check.Bound.number? b?).map Shape.value).map (Shape.tree s) = some x ↔
      ∃ b, b? = some b ∧ b.isNumber = true ∧ x = s.unfold b.value := by
  rw [Option.map_map, Option.map_eq_some_iff]
  constructor
  · rintro ⟨v, kept, rfl⟩
    obtain ⟨b, given, number, rfl⟩ := Check.Bound.number?_eq_some.mp kept
    exact ⟨b, given, number, rfl⟩
  · rintro ⟨b, given, number, rfl⟩
    exact ⟨b.value, Check.Bound.number?_eq_some.mpr ⟨b, given, number, rfl⟩, rfl⟩

theorem behind?_allowableValues :
    behind? (Shape.shown s (o.property kind).record) "allowableValues" =
      (o.allowable.map Allowable.shape).map (Shape.tree s) := by
  rw [Tree.behind?_shown]
  exact congrArg _ (Property.lookup_allowableValues kind o.describing? o.example? o.allowable)

theorem inside?_allowableValues (key : String) :
    inside? (Shape.shown s (o.property kind).record) "allowableValues" key =
      (o.allowable.bind fun a => a.record.lookup key).map (Shape.tree s) := by
  rw [inside?, behind?_allowableValues]
  cases o.allowable with
  | none => rfl
  | some a =>
    rw [Option.map_some, Option.map_some, a.shape_eq, Shape.tree_record]
    exact Tree.behind?_shown a.record key

/-- Each bound is written under its key if it is a number. -/
theorem lookup_bounds (o : Options) :
    (o.allowable.bind fun a => a.record.lookup "min") = o.lower?.map .value ∧
      (o.allowable.bind fun a => a.record.lookup "max") = o.upper?.map .value := by
  have none (unbounded : ¬ o.IsBounded) : o.lower? = none ∧ o.upper? = none := by
    simpa [isBounded_iff] using unbounded
  rcases o.allowable_cases with ⟨-, allows⟩ | ⟨⟨-, unbounded⟩, allows⟩ | ⟨⟨-, unbounded⟩, allows⟩
  · rw [allows]
    constructor <;>
      simp [Allowable.record, List.lookup_cons, List.lookup_append, Option.lookup_toList_map]
  · rw [allows, (none unbounded).1, (none unbounded).2]
    exact ⟨rfl, rfl⟩
  · rw [allows, (none unbounded).1, (none unbounded).2]
    exact ⟨rfl, rfl⟩

theorem tree_choices (choices : List Text) :
    (Shape.list ((choices.map fun t => Choice.value (.ofText t)).map Choice.shape)).tree s =
      .list (choices.map .ofText) := by
  rw [Shape.tree]
  congr 1
  induction choices with
  | nil => rfl
  | cons t rest ih =>
    rw [List.map_cons, List.map_cons, List.map_cons, Shape.treeAll, ih]
    rfl

theorem map_describing?_eq_some :
    (o.describing?.map Shape.value).map (Shape.tree s) = some x ↔
      ∃ words, o.description = some words ∧ words ≠ [] ∧ x = .ofText words := by
  rw [Option.map_map, Option.map_eq_some_iff]
  constructor
  · rintro ⟨v, describes, rfl⟩
    obtain ⟨words, kept, rfl⟩ := Option.map_eq_some_iff.mp describes
    obtain ⟨given, nonempty⟩ := Option.filter_eq_some_iff.mp kept
    exact ⟨words, given, by simpa using nonempty, rfl⟩
  · rintro ⟨words, given, nonempty, rfl⟩
    have kept : o.description.filter (!·.isEmpty) = some words :=
      Option.filter_eq_some_iff.mpr ⟨given, by simpa using nonempty⟩
    exact ⟨.ofText words, Option.map_eq_some_iff.mpr ⟨words, kept, rfl⟩, rfl⟩

theorem map_example?_eq_some :
    (o.example?.map Shape.copy).map (Shape.tree s) = some x ↔
      o.sample ≠ .null ∧ x = s.unfold o.sample := by
  rw [example?]
  split
  · next absent => simp [absent]
  · next present => simpa [present, Shape.tree] using eq_comm

theorem map_reference?_eq_some {tag : AcceptedTag} (maps : tag.kind? o.targetText = some kind) :
    (kind.reference?.map Shape.ofText).map (Shape.tree s) = some x ↔
      tag.IsReference ∧ x = .ofText (text "#/definitions/" ++ o.target.getD []) := by
  rw [Option.map_map, Option.map_eq_some_iff]
  constructor
  · rintro ⟨path, refers, rfl⟩
    obtain ⟨reference, rfl⟩ := (AcceptedTag.reference?_eq_some maps).mp refers
    exact ⟨reference, rfl⟩
  · rintro ⟨reference, rfl⟩
    exact ⟨_, (AcceptedTag.reference?_eq_some maps).mpr ⟨reference, rfl⟩, rfl⟩

/-- The allowable values are of the kind that the modifiers ask for. -/
theorem survive_allowable (o : Options) (s : Store) (kind : Kind) :
    let descriptor := Shape.shown s (o.property kind).record
    (inside? descriptor "allowableValues" "valueType" = some (.ofText (text "LIST")) ↔
      o.choices ≠ [] ∧ ¬ o.IsBounded) ∧
    (∀ x, inside? descriptor "allowableValues" "values" = some x ↔
      (o.choices ≠ [] ∧ ¬ o.IsBounded) ∧ x = .list (o.choices.map .ofText)) ∧
    (inside? descriptor "allowableValues" "valueType" = some (.ofText (text "RANGE")) ↔
      o.IsBounded) ∧
    (behind? descriptor "allowableValues" = none ↔ o.choices = [] ∧ ¬ o.IsBounded) := by
  have different : some (Tree.ofText (text "LIST")) ≠ some (.ofText (text "RANGE")) := by
    intro same
    have words := Scalar.string.inj (Tree.scalar.inj (Option.some.inj same))
    exact absurd (text_injective words) (by decide)
  simp only [inside?_allowableValues, behind?_allowableValues]
  rcases o.allowable_cases with ⟨bounded, allows⟩ | ⟨chosen, allows⟩ | ⟨unlimited, allows⟩
  · have values : (Allowable.range o.lower? o.upper?).record.lookup "values" = none := by
      simp [Allowable.record, List.lookup_cons, List.lookup_append, Option.lookup_toList_map]
    simp only [allows, Option.bind_some, values, Option.map_none]
    refine ⟨?_, ?_, ?_, ?_⟩
    · exact iff_of_false different.symm fun chosen => chosen.2 bounded
    · exact fun x => iff_of_false nofun fun chosen => chosen.1.2 bounded
    · exact iff_of_true rfl bounded
    · exact iff_of_false nofun fun unlimited => unlimited.2 bounded
  · have values := tree_choices (s := s) o.choices
    simp only [allows, Option.bind_some, Allowable.record]
    refine ⟨?_, ?_, ?_, ?_⟩
    · exact iff_of_true rfl chosen
    · intro x
      change some _ = some x ↔ _
      rw [values, Option.some_inj, and_iff_right chosen, eq_comm]
    · exact iff_of_false different chosen.2
    · exact iff_of_false nofun fun unlimited => chosen.1 unlimited.1
  · simp only [allows, Option.bind_none, Option.map_none]
    refine ⟨?_, ?_, ?_, ?_⟩
    · exact iff_of_false nofun fun chosen => chosen.1 unlimited.1
    · exact fun x => iff_of_false nofun fun chosen => chosen.1.1 unlimited.1
    · exact iff_of_false nofun unlimited.2
    · exact iff_of_true trivial unlimited

/-- What the modifiers come to stands in the property that they are added to. -/
theorem survive {tag : AcceptedTag} (maps : tag.kind? o.targetText = some kind) :
    o.Survive s tag (Shape.shown s (o.property kind).record) := by
  have least : inside? (Shape.shown s (o.property kind).record) "allowableValues" "min" =
      (o.lower?.map Shape.value).map (Shape.tree s) := by
    rw [inside?_allowableValues, o.lookup_bounds.1]
  have greatest : inside? (Shape.shown s (o.property kind).record) "allowableValues" "max" =
      (o.upper?.map Shape.value).map (Shape.tree s) := by
    rw [inside?_allowableValues, o.lookup_bounds.2]
  obtain ⟨list, values, range, unlimited⟩ := o.survive_allowable s kind
  refine ⟨?_, ?_, ?_, ?_, ?_, ?_, ?_, ?_, ?_⟩
  · intro x
    rw [Tree.behind?_shown, Options.property, Property.lookup_description]
    exact map_describing?_eq_some
  · intro x
    rw [Tree.behind?_shown, Options.property, Property.lookup_example]
    exact map_example?_eq_some
  · intro x
    rw [least]
    exact map_number?_eq_some
  · intro x
    rw [greatest]
    exact map_number?_eq_some
  · exact list
  · exact values
  · exact range
  · exact unlimited
  · intro x
    rw [Tree.behind?_shown, Options.property, Property.lookup_reference]
    exact map_reference?_eq_some maps

end Options

/-! ## Definitions as they show -/

theorem Definition.tree_shape {s : Store} (d : Definition) :
    d.shape.tree s = .map [(.ofText (text "properties"),
      .map (Shape.treeEntries s (Property.entriesOf d.properties)))] := by
  obtain ⟨properties⟩ := d
  rw [Definition.shape, Shape.tree_record]
  rfl

mutual

/-- The items of a property show the definition of the schema in the type. -/
theorem AcceptedTag.isDescribedBy {s : Store} {o : Options} {kind : Kind} :
    (tag : AcceptedTag) → tag.kind? o.targetText = some kind →
      tag.IsDescribedBy s (Shape.shown s (o.property kind).record)
  | .nested element, maps => by
    obtain rfl := Option.some.inj maps
    refine ⟨_, ?_, AcceptedSchema.isDescribedBy element⟩
    rw [Tree.behind?_shown, Options.property, Property.lookup_items]
    exact congrArg some (Definition.tree_shape element.definition)
  | .list, _ => trivial
  | .plain _, _ => trivial

/-- The properties of a schema show what the modifiers of its fields come to. -/
theorem AcceptedSchema.isDescribedBy {s : Store} : (t : AcceptedSchema) →
    t.IsDescribedBy s (Shape.treeEntries s (Property.entriesOf t.collected.properties))
  | .done => rfl
  | .field name tag options rest => by
    have later := AcceptedSchema.isDescribedBy (s := s) rest
    have shown := tag.isSelected_eq options.targetText
    rw [AcceptedSchema.IsDescribedBy, AcceptedSchema.collected]
    cases isPrivate name with
    | true => exact later
    | false =>
      cases maps : tag.kind? options.targetText with
      | none =>
        rw [maps] at shown
        simpa [shown] using later
      | some kind =>
        rw [maps] at shown
        have descriptor : (options.property kind).shape.tree s =
            .map (Shape.shown s (options.property kind).record) := by
          rw [Property.shape_eq, Shape.tree_record]
        simp only [shown, Option.isSome_some, Bool.not_false, Bool.and_true, if_true,
          Bool.false_eq_true, if_false]
        refine ⟨_, _, ?_, Options.survive maps, AcceptedTag.isDescribedBy tag maps, later⟩
        rw [← descriptor]
        rfl

end

/-- Where a definition of an accepted schema is placed, every descriptor at every depth shows what
the modifiers of its field come to. Nothing that can be changed there leads back to the schema or
its examples, so the examples are copies. -/
theorem modifiers_survive_in_definition {s : Store} {t : AcceptedSchema} {v : Value}
    (closed : s.Closed) (held : t.LiesAt s v) {name : Text} {j : Journal} {shape : Shape}
    (made : (s.definitionOf v name j).1 = .ok shape) :
    (∃ entries, (shape.place s).2.unfold (shape.place s).1 =
        .map [(.ofText (text "properties"), .map entries)] ∧ t.IsDescribedBy s entries) ∧
      ∀ way x, (shape.place s).2.reach (shape.place s).1 way = .ok x →
        (shape.place s).2.Apart s.size x := by
  obtain rfl := held.eq_of_definitionOf made
  have takes := held.takes_definition closed
  constructor
  · refine ⟨_, ?_, t.isDescribedBy⟩
    rw [Shape.unfold_place closed (.refl s) closed takes.heldBy_of_isPlainScalar]
    exact Definition.tree_shape t.definition
  · have apart : ∀ w ∈ t.definition.shape.shared, s.Apart s.size w := by
      intro w comes
      obtain ⟨x, -, rfl⟩ := takes.shared w comes
      exact s.apart_scalar _ x
    obtain ⟨guarded, outermost⟩ :=
      Shape.guarded_place closed.guarded takes.heldBy_of_isPlainScalar apart
    exact fun way x reached => guarded.apart_of_reach outermost reached

/-- In the sample the range replaces the choices and has the bound that is a number only, the empty
description is left out, and the reference names its target. -/
theorem modifiers_survive_in_described_sample :
    DescribedSample.store.Closed ∧
      (DescribedSample.store.definitionOf (DescribedSample.draft.place .empty).1
        (text "Task") ⟨none, []⟩).1 = .ok DescribedSample.schema.definition.shape ∧
      ∃ entries, (DescribedSample.schema.definition.shape.place DescribedSample.store).2.unfold
          (DescribedSample.schema.definition.shape.place DescribedSample.store).1 =
            .map [(.ofText (text "properties"), .map entries)] ∧
        DescribedSample.schema.IsDescribedBy DescribedSample.store entries := by
  have closed : DescribedSample.store.Closed := Store.closed_of_cells rfl (by decide)
  have made : (DescribedSample.store.definitionOf (DescribedSample.draft.place .empty).1
      (text "Task") ⟨none, []⟩).1 = .ok DescribedSample.schema.definition.shape := by
    rw [DescribedSample.schema_liesAt.definitionOf_eq (text "Task")]
    rfl
  exact ⟨closed, made,
    (modifiers_survive_in_definition closed DescribedSample.schema_liesAt made).1⟩

end SwaggerDoc
