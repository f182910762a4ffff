import SwaggerDoc.Proofs.Definition.Visits
import SwaggerDoc.Proofs.Store.Extension

/-!
The form of definitions.

`Store.IsDefinition` says what a definition looks like where it lies in a store: the keys of its
descriptors, the values admitted behind each, and which keys come together, at every depth of nested
definitions. Whatever a normalization comes to has this form once it is placed.
-/

namespace SwaggerDoc

namespace Store

/-- The value behind a key that is a text. -/
abbrev behind? (entries : List (Value × Value)) (key : String) : Option Value :=
  lookupText? entries (text key)

/-- The keys that a descriptor can have. -/
def descriptorKeys : List String :=
  ["type", "format", "items", "$ref", "description", "example", "allowableValues"]

/-- The mapping that only says of a type that it is string. -/
def IsStringType (t : Store) (v : Value) : Prop :=
  t.deref? v = some (.map [(.ofText (text "type"), .ofText (text "string"))])

/-- An integer or a number with a point, neither a truth value nor the not-a-number. -/
def IsBound (v : Value) : Prop :=
  (∃ i, v = .scalar (.int i)) ∨ ∃ f, v = .scalar (.float f) ∧ f.isNan = false

/-- A list of one or more texts to choose from. -/
def IsChoices (t : Store) (v : Value) : Prop :=
  ∃ (list : Value) (choices : List Text),
    t.deref? v = some (.map
      [(.ofText (text "valueType"), .ofText (text "LIST")), (.ofText (text "values"), list)]) ∧
    t.deref? list = some (.list (choices.map .ofText)) ∧ choices ≠ []

/-- A range with one bound or two. -/
def IsRange (t : Store) (v : Value) : Prop :=
  ∃ least greatest : Option Value,
    t.deref? v = some (.map
      ((.ofText (text "valueType"), .ofText (text "RANGE")) ::
        ((least.map fun b => (Value.ofText (text "min"), b)).toList ++
          (greatest.map fun b => (Value.ofText (text "max"), b)).toList))) ∧
    (least.isSome ∨ greatest.isSome) ∧ ∀ b, least = some b ∨ greatest = some b → IsBound b

/-- The entries of a descriptor, nested definitions aside. -/
structure IsDescription (t : Store) (entries : List (Value × Value)) : Prop where
  keys_nodup : (entries.map Prod.fst).Nodup
  keys : ∀ e ∈ entries, ∃ key ∈ descriptorKeys, e.1 = .ofText (text key)
  type : ∃ kind ∈ ["string", "integer", "boolean", "array"],
    behind? entries "type" = some (.ofText (text kind))
  format : ∀ f, behind? entries "format" = some f →
    f = .ofText (text "int64") ∧ behind? entries "type" = some (.ofText (text "integer")) ∨
      f = .ofText (text "date") ∧ behind? entries "type" = some (.ofText (text "string"))
  integer : behind? entries "type" = some (.ofText (text "integer")) →
    behind? entries "format" = some (.ofText (text "int64"))
  items : (behind? entries "items").isSome ↔
    behind? entries "type" = some (.ofText (text "array"))
  reference : ∀ r, behind? entries "$ref" = some r →
    behind? entries "type" = some (.ofText (text "string")) ∧
      ∃ target, r = .ofText (text "#/definitions/" ++ target)
  description : ∀ d, behind? entries "description" = some d →
    ∃ words, words ≠ [] ∧ d = .ofText words
  sample : ∀ x, behind? entries "example" = some x → x ≠ .null
  allowable : ∀ a, behind? entries "allowableValues" = some a → t.IsChoices a ∨ t.IsRange a

mutual

/-- A definition: a mapping with the properties and nothing else, a descriptor behind each name. -/
inductive IsDefinition (t : Store) : Value → Prop
  | mk {v properties : Value} {entries : List (Value × Value)} :
    t.deref? v = some (.map [(.ofText (text "properties"), properties)]) →
    t.deref? properties = some (.map entries) → (entries.map Prod.fst).Nodup →
    (∀ e ∈ entries, ∃ name, e.1 = .ofText name) → (∀ e ∈ entries, IsDescriptor t e.2) →
    IsDefinition t v

/-- A descriptor: the items of an array are strings or described by a definition again. -/
inductive IsDescriptor (t : Store) : Value → Prop
  | mk {v : Value} {entries : List (Value × Value)} :
    t.deref? v = some (.map entries) → t.IsDescription entries →
    (∀ items, behind? entries "items" = some items → ¬ t.IsStringType items →
      IsDefinition t items) →
    IsDescriptor t v

end

end Store

/-! ## Records by their keys -/

theorem text_injective {a b : String} (same : text a = text b) : a = b := by
  have injective (c d : Char) (same : c.toNat = d.toNat) : c = d := Char.toNat_inj.mp same
  exact String.toList_inj.mp ((List.map_inj_right injective).mp same)

/-- What stands behind the keys of a record are its shapes. -/
theorem Shape.behind?_of_entriesStandAt {t : Store} (key : String) :
    {record : List (String × Shape)} → {entries : List (Value × Value)} →
      Shape.EntriesStandAt t (record.map fun (k, shape) => (.ofText (text k), shape)) entries →
      match record.lookup key with
      | none => Store.behind? entries key = none
      | some shape => ∃ v, Store.behind? entries key = some v ∧ shape.StandsAt t v
  | [], _, stand => by
    obtain rfl := stand
    rfl
  | (k, shape) :: rest, _, stand => by
    obtain ⟨v, later, rfl, stands, standLater⟩ := stand
    have ih := Shape.behind?_of_entriesStandAt key standLater
    by_cases same : key = k
    · subst same
      simpa [List.lookup_cons, lookupText?, Value.asText?, Scalar.asText?] using stands
    · have different : text k ≠ text key := fun h => same (text_injective h).symm
      have skip : Store.behind? ((.ofText (text k), v) :: later) key =
          Store.behind? later key := by
        simp [lookupText?, Value.asText?, Scalar.asText?, different]
      simpa [List.lookup_cons, beq_eq_false_iff_ne.mpr same, skip] using ih

theorem Shape.keys_of_entriesStandAt {t : Store} :
    {shapes : List (Value × Shape)} → {entries : List (Value × Value)} →
      Shape.EntriesStandAt t shapes entries → entries.map Prod.fst = shapes.map Prod.fst
  | [], _, stand => by
    obtain rfl := stand
    rfl
  | (_, _) :: _, _, stand => by
    obtain ⟨v, later, rfl, -, standLater⟩ := stand
    simp [Shape.keys_of_entriesStandAt standLater]

/-! ## Descriptors by their keys -/

/-- The entries of a property. -/
def Property.record : Property → List (String × Shape)
  | .mk kind description sample allowable =>
    kind.entries
      ++ (description.map fun v => ("description", Shape.value v)).toList
      ++ (sample.map fun v => ("example", Shape.copy v)).toList
      ++ (allowable.map fun a => ("allowableValues", a.shape)).toList
      ++ kind.fallbackType

theorem Property.shape_eq (p : Property) : p.shape = .record p.record := by
  cases p
  rw [Property.shape, Property.record]

namespace Kind

/-- The type that is written for a kind. -/
def typeName : Kind → String
  | .string | .date | .reference _ => "string"
  | .integer => "integer"
  | .boolean => "boolean"
  | .texts | .records _ => "array"

/-- The format that is written for a kind. -/
def format? : Kind → Option String
  | .date => some "date"
  | .integer => some "int64"
  | _ => none

/-- What is written for the items of a kind. -/
def items? : Kind → Option Shape
  | .texts => some (.record [("type", .ofString "string")])
  | .records item => some item.shape
  | _ => none

/-- What is written for the reference of a kind. -/
def reference? : Kind → Option Text
  | .reference target => some (definitionsPath ++ target)
  | _ => none

end Kind

theorem Option.lookup_toList_map {α : Type} (o : Option α) (f : α → Shape) (k key : String) :
    (o.map fun v => (k, f v)).toList.lookup key = if key == k then o.map f else none := by
  cases o with
  | none => simp
  | some v => cases same : key == k <;> simp [List.lookup_cons, same]

namespace Property

variable (kind : Kind) (description sample : Option Value) (allowable : Option Allowable)

theorem lookup_type :
    (Property.mk kind description sample allowable).record.lookup "type" =
      some (.ofString kind.typeName) := by
  cases kind <;>
    simp [Property.record, Kind.entries, Kind.fallbackType, List.lookup_append, List.lookup_cons,
      Option.lookup_toList_map, Kind.typeName]

theorem lookup_format :
    (Property.mk kind description sample allowable).record.lookup "format" =
      kind.format?.map .ofString := by
  cases kind <;>
    simp [Property.record, Kind.entries, Kind.fallbackType, List.lookup_append, List.lookup_cons,
      Option.lookup_toList_map, Kind.format?]

theorem lookup_items :
    (Property.mk kind description sample allowable).record.lookup "items" = kind.items? := by
  cases kind <;>
    simp [Property.record, Kind.entries, Kind.fallbackType, List.lookup_append, List.lookup_cons,
      Option.lookup_toList_map, Kind.items?]

theorem lookup_reference :
    (Property.mk kind description sample allowable).record.lookup "$ref" =
      kind.reference?.map .ofText := by
  cases kind <;>
    simp [Property.record, Kind.entries, Kind.fallbackType, List.lookup_append, List.lookup_cons,
      Option.lookup_toList_map, Kind.reference?]

theorem lookup_description :
    (Property.mk kind description sample allowable).record.lookup "description" =
      description.map .value := by
  cases kind <;>
    simp [Property.record, Kind.entries, Kind.fallbackType, List.lookup_append, List.lookup_cons,
      Option.lookup_toList_map]

theorem lookup_example :
    (Property.mk kind description sample allowable).record.lookup "example" =
      sample.map .copy := by
  cases kind <;>
    simp [Property.record, Kind.entries, Kind.fallbackType, List.lookup_append, List.lookup_cons,
      Option.lookup_toList_map]

theorem lookup_allowableValues :
    (Property.mk kind description sample allowable).record.lookup "allowableValues" =
      allowable.map Allowable.shape := by
  cases kind <;>
    simp [Property.record, Kind.entries, Kind.fallbackType, List.lookup_append, List.lookup_cons,
      Option.lookup_toList_map]

/-- Every key is one of those that descriptors can have, and comes once. -/
theorem keys_nodup :
    ((Property.mk kind description sample allowable).record.map Prod.fst).Nodup ∧
      ∀ key ∈ (Property.mk kind description sample allowable).record.map Prod.fst,
        key ∈ Store.descriptorKeys := by
  cases kind <;> cases description <;> cases sample <;> cases allowable <;>
    simp [Property.record, Kind.entries, Kind.fallbackType, Store.descriptorKeys]

end Property

end SwaggerDoc
