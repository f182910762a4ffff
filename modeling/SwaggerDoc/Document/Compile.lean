import SwaggerDoc.Document.Basic

/-!
The entry points: the property of a value, the definition of a schema, the document of a resource,
and two questions about the fields of a schema.

Everything is read from a store and answered in a shape, so nothing that lies in the store changes.
-/

namespace SwaggerDoc

namespace Store

/-- How schemas are read when a value is no schema of its own. -/
def outlineOf (s : Store) : Value → Outline := Outline.read s

/-- What the options of a field map to, without their modifiers. `name` is the name of a definition
nested in them. -/
def propertyOf (s : Store) (options : Value) (name : Text) : Report (Option Shape) :=
  let name := DefinitionName.ofText name
  match Entry.ofOptions s s.outlineOf options with
  | .declared tag m => do
    return (← tag.kind name m.target).map fun kind => .record kind.entries
  | .bare tag target => do
    return (← tag.kind name target).map fun kind => .record kind.entries
  | .broken fault => .fault fault

/-- The definition that describes a schema. -/
def definitionOf (s : Store) (schema : Value) (name : Text) : Report Shape := do
  return (← (s.outlineOf schema).define (.ofText name)).shape

/-! ## Resources in a store -/

/-- Whether a collection of methods holds a method. A text holds the methods whose names occur in
it. -/
def holdsMethod (s : Store) (methods : Value) (m : Method) : Except Fault Bool :=
  match methods with
  | .scalar x =>
    match x.asText? with
    | some t => .ok ((List.range (t.length + 1)).any fun n => Text.startsWith (t.drop n) m.name)
    | none => .error .wrongKind
  | .ref p =>
    match s.cell? p with
    | some (.list items) | some (.tuple items) | some (.set items) =>
      .ok (items.any (s.sameKey · (.scalar (.method m))))
    | some (.map entries) => .ok (entries.any fun e => s.sameKey e.1 (.scalar (.method m)))
    | some (.field _) | some (.schema _) | some (.resource _) => .ok false
    | _ => .error .wrongKind

/-- The methods that a resource in the store enables. -/
def enabledMethods (s : Store) (r : ResourceCell) : Except Fault (List Method) :=
  Method.all.filterM fun m => s.holdsMethod r.methods m

/-- The document of a resource in the store, once the definition of its model is known. The route
and the name are written into longer texts only for operations on a member. -/
def documentOf (s : Store) (r : ResourceCell) (definition : ModelDefinition) :
    Except Fault Document := do
  let modelText ← s.written r.model
  if !s.hashable r.model then throw .wrongKind
  let enabled ← s.enabledMethods r
  if enabled.any (!·.onItem) && !s.hashable r.route then throw .wrongKind
  let written (v : Value) : Except Fault Text :=
    if enabled.any (·.onItem) then s.written v else .ok []
  let routeText ← written r.route
  let nameText ← written r.name
  return .of ⟨r.route, routeText, r.name, nameText, r.model, modelText⟩ enabled definition

/-- The name of a model as the name of its definition. A report can hold a text only. An absent
model is not put in front of nested names. -/
def definitionName (s : Store) (model : Value) : DefinitionName where
  reported :=
    ((Check.string model).within (.name (text "definition"))).result (text "TypeFallback")
  written := if s.truthy model then s.written model else .ok []

/-- The name that a value goes by as a resource: besides resources, tags and methods have one. -/
def resourceName (s : Store) (resource : Value) : Except Fault Value :=
  match resource, s.deref? resource with
  | _, some (.resource r) => .ok r.name
  | .scalar x, _ =>
    match x.label? with
    | some label => .ok (.ofText label)
    | none => .error .noAttribute
  | _, _ => .error .noAttribute

/-- The definition of the model called `model`. One that is given is used as it is, otherwise the
schema is read; one of the two is there. -/
def modelDefinition (s : Store) (model schema definition : Value) : Report ModelDefinition :=
  if definition != .null then .ok (.given definition)
  else do return .made (← (s.outlineOf schema).define (s.definitionName model))

/-- The document of a resource. A schema or a definition that is absent is null; without either
there is no document. -/
def compile (s : Store) (resource schema definition : Value) : Report Document :=
  if definition = .null && schema = .null then do
    let name ← .ofExcept (do s.shown (← s.resourceName resource))
    .fault (.compile (text "No schema or definition given for resource " ++ name))
  else
    match s.deref? resource with
    | some (.resource r) => do
      .ofExcept (s.documentOf r (← s.modelDefinition r.model schema definition))
    | _ => .fault .noAttribute

/-- The names of the required public fields of a schema. -/
def requiredNames (s : Store) (schema : Value) : Except Fault (List Value) :=
  match s.deref? schema with
  | some (.schema fields) =>
    match s.deref? fields with
    | some (.map entries) => do
      let kept ← entries.filterM fun (key, v) =>
        match s.deref? v with
        | some (.field f) =>
          if s.truthy f.required then
            match key, key.asText? with
            | _, some name => .ok !isPrivate name
            | .scalar (.octets _), none => .error .wrongKind
            | _, none => .error .noAttribute
          else .ok false
        | _ => .error .noAttribute
      return kept.map Prod.fst
    | _ => .error .noAttribute
  | _ => .error .noAttribute

/-- Whether the field of a name may be written. A name without a field may. -/
def writable (s : Store) (fields : List (Value × Value)) (name : Value) : Except Fault Bool :=
  match s.lookup? fields name with
  | none | some .null => .ok true
  | some v =>
    match s.deref? v with
    | some (.field f) => .ok !s.truthy f.readonly
    | _ => .error .noAttribute

/-- The properties of a definition whose fields may be written. -/
def writableProperties (s : Store) (definition schema : Value) : Except Fault (List Value) :=
  match s.deref? definition with
  | some (.map entries) => do
    let properties : List (Value × Value) ←
      match lookupText? entries (text "properties") with
      | none => .ok []
      | some v =>
        match s.deref? v with
        | some (.map properties) => .ok properties
        | _ => .error .noAttribute
    if properties.isEmpty then return []
    match s.deref? schema with
    | some (.schema fields) =>
      match s.deref? fields with
      | some (.map fields) => do
        let kept ← properties.filterM fun (name, _) => s.writable fields name
        return kept.map Prod.snd
      | _ => .error .noAttribute
    | _ => .error .noAttribute
  | _ => .error .noAttribute

end Store

end SwaggerDoc
