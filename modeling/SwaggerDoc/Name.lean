import SwaggerDoc.Value

/-!
The names of fields.

A name is a text. A type tag or a method can stand in its place, because it passes for its written
name: it is found under that name, and only inside a longer text it is told apart by its label.
-/

namespace SwaggerDoc

/-- A text, or a tag or a method that passes for one. -/
inductive Name where
  | text (t : Text)
  | fieldType (t : FieldType)
  | method (m : Method)
  deriving DecidableEq, Repr

namespace Name

/-- A name as a value. -/
def scalar : Name → Scalar
  | .text t => .string t
  | .fieldType t => .fieldType t
  | .method m => .method m

/-- The name that a value is. -/
def ofScalar? : Scalar → Option Name
  | .string t => some (.text t)
  | .fieldType t => some (.fieldType t)
  | .method m => some (.method m)
  | _ => none

/-- The text that a name is or passes for. -/
def characters : Name → Text
  | .text t => t
  | .fieldType t => t.name
  | .method m => m.name

/-- A name as it appears inside a longer text. -/
def written : Name → Text
  | .text t => t
  | .fieldType t => SwaggerDoc.text "FieldType." ++ t.label
  | .method m => SwaggerDoc.text "Method." ++ m.label

@[simp] theorem ofScalar?_scalar (n : Name) : ofScalar? n.scalar = some n := by
  cases n <;> rfl

end Name

end SwaggerDoc
