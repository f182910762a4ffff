import SwaggerDoc.Definition.Basic

/-!
From schemas to definitions.

Fields are taken in order. A type that maps to nothing leaves its field out, and such a field has no
influence at all. The modifiers of the others are added to what their type maps to.
-/

namespace SwaggerDoc

/-- What a definition is called. -/
structure DefinitionName where
  /-- The name in reports; there are values for which they have no room. -/
  reported : Except Fault Text
  /-- The name in front of the names of nested definitions; empty if nothing is put there. There
  are values that cannot be written. -/
  written : Except Fault Text

namespace DefinitionName

/-- A text as the name of a definition. -/
def ofText (t : Text) : DefinitionName := ⟨.ok t, .ok t⟩

/-- The name of the definition nested in a field: behind the name of the outer definition and a
point, if that has one to put in front. -/
def nested (outer : DefinitionName) (field : Name) : Except Fault DefinitionName := do
  let front ← outer.written
  return if front.isEmpty then ⟨.ok field.characters, .ok field.written⟩
    else .ofText (front ++ text "." ++ field.written)

end DefinitionName

namespace Scalar

/-- Whether a scalar is a text or a number, so that it should have been a type. -/
def isTagLike : Scalar → Bool
  | .null | .octets _ => false
  | _ => true

/-- The tag in reports: a type tag by its name, anything else as messages show it. -/
def describedTag : Scalar → Except Fault Text
  | .fieldType t => .ok t.name
  | s => s.shown

end Scalar

/-- Whether a tag asks for a reference. The names of the two tags do as well as the tags. -/
def Value.isReferenceTag (v : Value) : Bool :=
  v.asText? == some FieldType.objectId.name || v.asText? == some FieldType.oid.name

/-- Whether a tag asks for an opaque value. The names of the two tags do as well as the tags. -/
def Value.isOpaqueTag (v : Value) : Bool :=
  v.asText? == some FieldType.mixed.name || v.asText? == some FieldType.buffer.name

/-- What a type that is no list maps to. Absent values, the object tag and values with parts map to
nothing; any other scalar is not recognised. -/
def Kind.ofScalar (target : Except Fault Text) (v : Value) : Except Fault (Option Kind) :=
  match v with
  | .ref _ => .ok none
  | .scalar s =>
    if !s.truthy then .ok none
    else match s with
      | .fieldType .string => .ok (some .string)
      | .fieldType .number => .ok (some .integer)
      | .fieldType .date => .ok (some .date)
      | .fieldType .boolean => .ok (some .boolean)
      | .fieldType .array => .ok (some .texts)
      | .fieldType .object => .ok none
      | s =>
        if v.isReferenceTag then target.map fun t => some (.reference t)
        else if v.isOpaqueTag then .ok (some .string)
        else if s.isTagLike then do
          let shown ← s.shown
          .error (.unrecognized v shown none)
        else .ok none

/-- A bound of a range, if the value is a number: truth values and the not-a-number are none. -/
def Allowable.bound? (v : Value) : Except Fault (Option Value) :=
  match v with
  | .scalar (.int i) => if (Binary64.ofInt? i).isSome then .ok (some v) else .error .tooLarge
  | .scalar (.float f) => .ok (if f.isNan then none else some v)
  | _ => .ok none

/-- The values that the modifiers allow. A range replaces any list of choices. -/
def Modifiers.allowable (m : Modifiers) : Except Fault (Option Allowable) := do
  let choices ← m.choices
  let least ← Allowable.bound? m.least
  let greatest ← Allowable.bound? m.greatest
  return if least.isSome || greatest.isSome then some (.range least greatest)
    else if choices.isEmpty then none
    else some (.list choices)

/-- Adds the modifiers of a field to what its type maps to. -/
def Property.modified (m : Modifiers) (kind : Kind) : Except Fault Property := do
  let allowable ← m.allowable
  return .mk kind (if m.description.present then some m.description.value else none)
    (if m.sample = .null then none else some m.sample) allowable

/-- The fallback of a field whose type maps to a reference. -/
def Fallback.of? (name : DefinitionName) (field : Name) (tag : Tag) (kind : Kind) :
    Except Fault (Option Fallback) :=
  match kind, tag with
  | .reference _, .plain (.scalar s) => do
    let described ← s.describedTag
    return some ⟨← name.reported, field.characters, described⟩
  | _, _ => .ok none

/-- A definition in the making: the properties and the names of the required fields among them. -/
structure Collected where
  properties : List (Name × Property)
  required : List Name

/-- A collected field in front of the later ones. -/
def Collected.cons (name : Name) (property : Property) (required : Bool) (c : Collected) :
    Collected :=
  ⟨(name, property) :: c.properties, if required then name :: c.required else c.required⟩

/-- The definition collected. -/
def Collected.definition (c : Collected) : Definition := .mk c.properties

mutual

/-- What a type maps to. `name` is the name of a definition nested in it. -/
def Tag.kind (name : DefinitionName) (target : Except Fault Text) : Tag → Report (Option Kind)
  | .nested element => do
    let c ← element.collect name
    return some (.records c.definition)
  | .list => .ok (some .texts)
  | .plain v => .ofExcept (Kind.ofScalar target v)

/-- The property of the field called `field` in the definition called `name`, with whether the
field is required; none if its type maps to nothing. `inner` is the name of a definition nested in
it. -/
def Entry.property (name inner : DefinitionName) (field : Name) :
    Entry → Report (Option (Property × Bool))
  | .broken fault => .fault fault
  | .bare tag target => do
    match ← (tag.kind inner target).blame field with
    | none => return none
    | some _ => .fault .noAttribute
  | .declared tag m => do
    match ← (tag.kind inner m.target).blame field with
    | none => return none
    | some kind => do
      let property ← .ofExcept (Property.modified m kind)
      match ← .ofExcept (Fallback.of? name field tag kind) with
      | none => return some (property, m.required)
      | some f => do
        Report.fallback f
        return some (property, m.required)

/-- The properties of the fields, in order. -/
def Outline.collect (name : DefinitionName) : Outline → Report Collected
  | .done => .ok ⟨[], []⟩
  | .broken fault => .fault fault
  | .field field entry rest => do
    let inner ← .ofExcept (name.nested field)
    let property ← entry.property name inner field
    let later ← rest.collect name
    match property with
    | none => return later
    | some (p, required) => return later.cons field p required

end

/-- The definition of the given name that describes a schema. -/
def Outline.define (name : DefinitionName) (o : Outline) : Report Definition := do
  return (← o.collect name).definition

end SwaggerDoc
