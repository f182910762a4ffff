import SwaggerDoc.Definition.Basic
import SwaggerDoc.Shape

/-!
The shape of definitions.

The keys of a property come in a fixed order: what the type maps to, the description, the example,
the allowable values, and last the type of a reference, which is not known from its tag.
-/

namespace SwaggerDoc

/-- Where the definitions of a document are found. -/
def definitionsPath : Text := text "#/definitions/"

/-- The shape of a choice. -/
def Choice.shape : Choice → Shape
  | .value v => .value v
  | .attribute name v => .tuple [.ofText name, .value v]

/-- The shape of allowable values. -/
def Allowable.shape : Allowable → Shape
  | .list choices => .record
    [("valueType", .ofString "LIST"), ("values", .list (choices.map Choice.shape))]
  | .range least greatest => .record <|
    [("valueType", .ofString "RANGE")]
      ++ (least.map fun v => ("min", Shape.value v)).toList
      ++ (greatest.map fun v => ("max", Shape.value v)).toList

/-- The type that is written for a reference. -/
def Kind.fallbackType : Kind → List (String × Shape)
  | .reference _ => [("type", .ofString "string")]
  | _ => []

mutual

/-- The entries for what a type maps to. -/
def Kind.entries : Kind → List (String × Shape)
  | .string => [("type", .ofString "string")]
  | .date => [("type", .ofString "string"), ("format", .ofString "date")]
  | .integer => [("type", .ofString "integer"), ("format", .ofString "int64")]
  | .boolean => [("type", .ofString "boolean")]
  | .reference target => [("$ref", .ofText (definitionsPath ++ target))]
  | .texts => [("type", .ofString "array"), ("items", .record [("type", .ofString "string")])]
  | .records item => [("type", .ofString "array"), ("items", item.shape)]

/-- The shape of a property. -/
def Property.shape : Property → Shape
  | .mk kind description sample allowable => .record <|
    kind.entries
      ++ (description.map fun v => ("description", Shape.value v)).toList
      ++ (sample.map fun v => ("example", Shape.copy v)).toList
      ++ (allowable.map fun a => ("allowableValues", a.shape)).toList
      ++ kind.fallbackType

/-- The entries of properties by name. -/
def Property.entriesOf : List (Name × Property) → List (Value × Shape)
  | [] => []
  | (name, property) :: rest => (.scalar name.scalar, property.shape) :: Property.entriesOf rest

/-- The shape of a definition. -/
def Definition.shape : Definition → Shape
  | .mk properties => .record [("properties", .map (Property.entriesOf properties))]

end

end SwaggerDoc
