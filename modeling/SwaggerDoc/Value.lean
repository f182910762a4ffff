import SwaggerDoc.Calendar
import SwaggerDoc.Number.Binary64
import SwaggerDoc.Text.Octets

/-!
The values that schemas, resources and documents are made of.

A scalar is complete in itself. Everything that has parts or an identity of its own (a list, a
mapping, a date, a field declaration, …) lies in a store, and a value only points to its place. So
two values can share a part, and a part can contain itself.
-/

namespace SwaggerDoc

/-- The recognised type tags of a field. -/
inductive FieldType where
  | string | number | date | boolean | objectId | oid | array | mixed | buffer | object
  deriving DecidableEq, Repr

namespace FieldType

/-- All type tags, in the order in which they are declared. -/
def all : List FieldType :=
  [.string, .number, .date, .boolean, .objectId, .oid, .array, .mixed, .buffer, .object]

/-- The written name of a type tag. -/
def name : FieldType → Text
  | .string => text "String"
  | .number => text "Number"
  | .date => text "Date"
  | .boolean => text "Boolean"
  | .objectId => text "ObjectId"
  | .oid => text "Oid"
  | .array => text "Array"
  | .mixed => text "Mixed"
  | .buffer => text "Buffer"
  | .object => text "Object"

/-- The name by which the tag is known among the tags. -/
def label : FieldType → Text
  | .string => text "STRING"
  | .number => text "NUMBER"
  | .date => text "DATE"
  | .boolean => text "BOOLEAN"
  | .objectId => text "OBJECT_ID"
  | .oid => text "OID"
  | .array => text "ARRAY"
  | .mixed => text "MIXED"
  | .buffer => text "BUFFER"
  | .object => text "OBJECT"

/-- The type tag of a written name. -/
def ofName? (t : Text) : Option FieldType := all.find? fun tag => tag.name == t

@[simp] theorem ofName?_name (t : FieldType) : ofName? t.name = some t := by
  cases t <;> rfl

end FieldType

/-- The five operations that a resource can enable. -/
inductive Method where
  | index | post | get | put | delete
  deriving DecidableEq, Repr

namespace Method

/-- All methods, in the order in which documents list their operations. -/
def all : List Method := [.index, .post, .get, .put, .delete]

/-- The written name of a method. -/
def name : Method → Text
  | .index => text "index"
  | .post => text "post"
  | .get => text "get"
  | .put => text "put"
  | .delete => text "delete"

/-- The name by which the method is known among the methods. -/
def label : Method → Text
  | .index => text "INDEX"
  | .post => text "POST"
  | .get => text "GET"
  | .put => text "PUT"
  | .delete => text "DELETE"

/-- The method of a written name. -/
def ofName? (t : Text) : Option Method := all.find? fun method => method.name == t

end Method

/-- A value without parts. Type tags and methods are scalars that also pass for their names. -/
inductive Scalar where
  | null
  | bool (b : Bool)
  | int (i : Int)
  | float (f : Binary64)
  | string (t : Text)
  | octets (o : Octets)
  | fieldType (t : FieldType)
  | method (m : Method)
  deriving DecidableEq, Repr

namespace Scalar

/-- The text that a scalar is or passes for. -/
def asText? : Scalar → Option Text
  | .string t => some t
  | .fieldType t => some t.name
  | .method m => some m.name
  | _ => none

/-- The label of a type tag or a method among its kind. -/
def label? : Scalar → Option Text
  | .fieldType t => some t.label
  | .method m => some m.label
  | _ => none

/-- The integer that a scalar is or passes for: the truth values pass for one and zero. -/
def asInt? : Scalar → Option Int
  | .bool b => some (if b then 1 else 0)
  | .int i => some i
  | _ => none

/-- Whether a scalar counts as present: nothing, zero, falsehood and the empty text do not. -/
def truthy : Scalar → Bool
  | .null => false
  | .bool b => b
  | .int i => i != 0
  | .float f => !f.isZero
  | .octets o => !o.isEmpty
  | s => s.asText?.any (!·.isEmpty)

/-- Whether two scalars are equal: numbers by their value whatever their kind, texts and what
passes for one by their characters. -/
def equal (a b : Scalar) : Bool :=
  match a, b with
  | .null, .null => true
  | .octets x, .octets y => x == y
  | .float x, .float y => x.equal y
  | .float x, y => y.asInt?.any fun i => x.toInt? == some i
  | x, .float y => x.asInt?.any fun i => y.toInt? == some i
  | x, y =>
    match x.asInt?, y.asInt? with
    | some i, some j => i == j
    | _, _ => x.asText?.isSome && x.asText? == y.asText?

/-- Whether two scalars are found to be one in a container: they are equal, or they are the very
same not-a-number. -/
def same (a b : Scalar) : Bool := a == b || a.equal b

end Scalar

/-- A place in a store. -/
abbrev Place := Nat

/-- A scalar, or the place of something with parts. -/
inductive Value where
  | scalar (s : Scalar)
  | ref (place : Place)
  deriving DecidableEq, Repr

namespace Value

/-- The absent value. -/
abbrev null : Value := .scalar .null

/-- A text as a value. -/
abbrev ofText (t : Text) : Value := .scalar (.string t)

/-- A number as a value. -/
abbrev ofNat (n : Nat) : Value := .scalar (.int n)

/-- The text that a value is or passes for. -/
def asText? : Value → Option Text
  | .scalar s => s.asText?
  | .ref _ => none

end Value

end SwaggerDoc
