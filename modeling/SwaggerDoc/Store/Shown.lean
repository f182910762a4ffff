import SwaggerDoc.Store.Basic
import SwaggerDoc.Fault
import SwaggerDoc.Number.Shortest

/-!
Values as messages show them: texts between quotes, the parts of containers between brackets.

An integer of more than 4300 digits is not shown. A container that is met again inside itself is not
shown a second time. A model is shown wherever it is met, so a way from a model back to itself has
to lead through a container.
-/

namespace SwaggerDoc

/-- Numbers in messages. -/
def shownNumbers : NumberLayout := ⟨text "nan", text "inf", false⟩

/-- The text of an integer, unless it has more than 4300 digits. -/
def integerText? (i : Int) : Except Fault Text :=
  if i.natAbs < tenTo 4300 then .ok (Text.ofInt i) else .error .badValue

namespace Scalar

/-- A scalar as messages show it. -/
def shown : Scalar → Except Fault Text
  | .null => .ok (text "None")
  | .bool b => .ok (text (if b then "True" else "False"))
  | .int i => integerText? i
  | .float f => .ok (shownNumbers.number f)
  | .string t => .ok (Text.quoted t)
  | .octets o => .ok (Text.quotedOctets o)
  | .fieldType t =>
    .ok (text "<FieldType." ++ t.label ++ text ": " ++ Text.quoted t.name ++ text ">")
  | .method m => .ok (text "<Method." ++ m.label ++ text ": " ++ Text.quoted m.name ++ text ">")

end Scalar

/-- Parts between brackets, with commas between. -/
def bracketed (left right : String) (parts : List Text) : Text :=
  text left ++ Text.join (text ", ") parts ++ text right

/-- What is shown around a value: the containers, and the models inside the innermost of them. -/
structure Surroundings where
  containers : List Place
  models : List Place

namespace Surroundings

/-- Nothing is shown around the value. -/
def none : Surroundings := ⟨[], []⟩

/-- The surroundings of the parts of a container. -/
def enter (a : Surroundings) (p : Place) : Surroundings := ⟨p :: a.containers, []⟩

/-- The surroundings of the attributes of a model. -/
def enterModel (a : Surroundings) (p : Place) : Surroundings := { a with models := p :: a.models }

end Surroundings

namespace Store

/-- A value as messages show it among its surroundings. The first argument bounds the depth. -/
def shownWithin (s : Store) : Nat → Surroundings → Value → Except Fault Text
  | _, _, .scalar x => x.shown
  | 0, _, .ref _ => .error .tooDeep
  | depth + 1, around, .ref p =>
    -- The parts of a container that is not shown already; `again` stands for one that is.
    let container (again : String) (parts : List Value) (form : List Text → Text) :
        Except Fault Text :=
      if around.containers.contains p then .ok (text again)
      else (parts.mapM (shownWithin s depth (around.enter p))).map form
    let model (name : String) (attributes : List (Text × Value)) : Except Fault Text :=
      if around.models.contains p then .error .tooDeep
      else do
        let parts ← attributes.mapM fun (name, v) => do
          return name ++ 61 :: (← shownWithin s depth (around.enterModel p) v)
        return bracketed (name ++ "(") ")" parts
    match s.cell? p with
    | some (.list items) => container "[...]" items (bracketed "[" "]")
    | some (.tuple items) =>
      container "(...)" items (bracketed "(" (if items.length = 1 then ",)" else ")"))
    | some (.set items) =>
      if items.isEmpty then .ok (text "set()")
      else container "set(...)" items (bracketed "\x7b" "\x7d")
    | some (.map entries) =>
      if around.containers.contains p then .ok (text "\x7b...\x7d")
      else do
        let inside := shownWithin s depth (around.enter p)
        let parts ← entries.mapM fun (key, value) => do
          return (← inside key) ++ text ": " ++ (← inside value)
        return bracketed "\x7b" "\x7d" parts
    | some (.date d) => .ok d.shown
    | some (.time t) => .ok t.shown
    | some (.field f) => model "FieldSpec" (fieldAttributeNames.zip f.attributes)
    | some (.schema fields) => model "Schema" [(text "fields", fields)]
    | some (.resource r) =>
      model "ResourceDescriptor" (resourceAttributeNames.zip r.attributes)
    | some .object | none => .ok (text "<object object>")

/-- A bound of the depth to which values are shown: no container is inside itself, and between two
of them no model is inside itself. -/
def shownDepth (s : Store) : Nat := (s.size + 1) * (s.size + 1)

/-- A value as messages show it. -/
def shown (s : Store) (v : Value) : Except Fault Text := s.shownWithin s.shownDepth .none v

/-- Attributes of a model as messages show them, with blanks between. -/
def writtenAttributes (s : Store) (attributes : List (Text × Value)) : Except Fault Text := do
  let parts ← attributes.mapM fun (name, v) => do return name ++ 61 :: (← s.shown v)
  return Text.join [32] parts

/-- A value as it appears inside a longer text: a name as it is written there, a date in its plain
form, a model by its attributes, the rest as messages show it. -/
def written (s : Store) (v : Value) : Except Fault Text :=
  match v with
  | .scalar x =>
    match Name.ofScalar? x with
    | some name => .ok name.written
    | none => x.shown
  | .ref p =>
    match s.cell? p with
    | some (.date d) => .ok d.iso
    | some (.time t) => .ok (t.iso 32)
    | some (.field f) => s.writtenAttributes (fieldAttributeNames.zip f.attributes)
    | some (.schema fields) => s.writtenAttributes [(text "fields", fields)]
    | some (.resource r) => s.writtenAttributes (resourceAttributeNames.zip r.attributes)
    | _ => s.shown v

end Store

end SwaggerDoc
