import SwaggerDoc.Schema.Checked

/-!
Accepted declarations.

Whatever declares a field or a schema is checked into a draft: type names have become type tags,
mappings that hold fields inside a list tag have become schemas, and every option has its own type.
A draft has no place yet. Declarations that already lie in the store are taken over as they are.
-/

namespace SwaggerDoc

/-- The options of a field besides its type. -/
structure Options where
  required : Bool
  description : Option Text
  sample : Value
  choices : List Text
  least : Option Check.Bound
  greatest : Option Check.Bound
  target : Option Text
  readonly : Bool
  deriving Repr

mutual

/-- The type of a field. -/
inductive TagDraft where
  /-- Any value but a list; a type name has become the tag it names. -/
  | plain (v : Value)
  | list (elements : List ElementDraft)

/-- An element of a list that is the type of a field. -/
inductive ElementDraft where
  | plain (v : Value)
  | schema (fields : List (Text × FieldDraft))

/-- The declaration of a field. -/
inductive FieldDraft where
  /-- A declaration that lies in the store. -/
  | stored (v : Value)
  | fresh (tag : TagDraft) (options : Options)

end

/-- The declaration of a schema: its fields by name, in the order declared. -/
abbrev SchemaDraft := List (Text × FieldDraft)

namespace Draft

/-- A type name becomes the tag that it names; every other value stays. -/
def namedTag (v : Value) : Value :=
  match v with
  | .scalar s =>
    match s.asText?.bind FieldType.ofName? with
    | some tag => .scalar (.fieldType tag)
    | none => v
  | .ref _ => v

/-- The options of a field besides its type, from the entries of a mapping. -/
def options (s : Store) (entries : List (Value × Value)) : Checked Options :=
  Options.mk
    <$> Check.optional entries "required" false Check.bool
    <*> Check.optional entries "description" none Check.string?
    <*> Check.optional entries "example" .null .accepted
    <*> Check.optional entries "enum" [] (Check.list s Check.string)
    <*> Check.optional entries "min" none Check.bound?
    <*> Check.optional entries "max" none Check.bound?
    <*> Check.optional entries "ref" none Check.string?
    <*> Check.optional entries "readonly" false Check.bool

/-- Keeps the last declaration of each name, at the place of the first. -/
def insertField (fields : SchemaDraft) (name : Text) (field : FieldDraft) : SchemaDraft :=
  match fields with
  | [] => [(name, field)]
  | entry :: rest =>
    if entry.1 = name then (name, field) :: rest else entry :: insertField rest name field

/-- The declaration of a field in a schema: a declaration, a mapping with a type, or a bare type.
`fresh` checks the entries of a mapping. -/
def ofEntry (s : Store) (fresh : List (Value × Value) → Checked FieldDraft) (v : Value) :
    Checked FieldDraft :=
  let bare := [(Value.ofText (text "type"), v)]
  match s.deref? v with
  | some (.field _) => .accepted (.stored v)
  | some (.map entries) =>
    fresh (if (lookupText? entries (text "type")).isSome then entries else bare)
  | _ => fresh bare

/-- The fields of a schema, from whatever is given for them. -/
def ofFields (s : Store) (fresh : List (Value × Value) → Checked FieldDraft) (v : Value) :
    Checked SchemaDraft :=
  match s.deref? v with
  | some (.map entries) =>
    (Checked.all (fun (key, value) =>
        (Check.key s key).both fun _ => (ofEntry s fresh value).within (Check.step s key))
      entries).map fun fields =>
        fields.foldl (fun found (name, field) => insertField found name field) []
  | _ => .issue .notMap

/-- A schema from the entries of a mapping. -/
def ofSchema (s : Store) (fresh : List (Value × Value) → Checked FieldDraft)
    (entries : List (Value × Value)) : Checked SchemaDraft :=
  Check.optional entries "fields" [] (ofFields s fresh)

/-- An element of a list tag: a mapping that holds fields becomes a schema. -/
def ofElement (s : Store) (fresh : List (Value × Value) → Checked FieldDraft) (v : Value) :
    Checked ElementDraft :=
  match s.deref? v with
  | some (.map entries) =>
    if (lookupText? entries (text "fields")).isSome then
      match Check.attributes entries with
      | .error fault => .failed fault
      | .ok entries => (ofSchema s fresh entries).map .schema
    else .accepted (.plain v)
  | _ => .accepted (.plain (namedTag v))

/-- The type of a field; the elements of a list are checked up to the first that is refused. -/
def ofTag (s : Store) (fresh : List (Value × Value) → Checked FieldDraft) (v : Value) :
    Checked TagDraft :=
  match s.deref? v with
  | some (.list items) => (Checked.inOrder (ofElement s fresh) items).map .list
  | _ => .accepted (.plain (namedTag v))

/-- A field from the entries of a mapping, its type first. The first argument bounds the nesting of
schemas inside list tags. -/
def ofMapping (s : Store) : Nat → List (Value × Value) → Checked FieldDraft
  | 0, _ => .failed .tooDeep
  | depth + 1, entries =>
    FieldDraft.fresh
      <$> Check.optional entries "type" (.plain .null) (ofTag s (ofMapping s depth))
      <*> options s entries

/-- Schemas that do not contain themselves are nested less deep than there are places. -/
def field (s : Store) (entries : List (Value × Value)) : Checked FieldDraft :=
  ofMapping s (s.size + 2) entries

end Draft

/-- The draft of a field declaration from the attributes given for it. -/
def FieldDraft.check (s : Store) (entries : List (Value × Value)) : Except Fault FieldDraft := do
  (Draft.field s (← Check.attributes entries)).result (text "FieldSpec")

/-- The draft of a field declaration whose type is all that is given. -/
def FieldDraft.ofTag (s : Store) (v : Value) : Except Fault FieldDraft :=
  (Draft.field s [(.ofText (text "type"), v)]).result (text "FieldSpec")

/-- The draft of a schema from the attributes given for it. -/
def SchemaDraft.check (s : Store) (entries : List (Value × Value)) : Except Fault SchemaDraft := do
  (Draft.ofSchema s (Draft.field s) (← Check.attributes entries)).result (text "Schema")

/-! ## Placing drafts in a store -/

mutual

/-- Places the type of a field. -/
def TagDraft.place (s : Store) : TagDraft → Value × Store
  | .plain v => (v, s)
  | .list elements =>
    let (items, s) := ElementDraft.placeAll s elements
    s.alloc (.list items)

/-- Places an element of a list tag. -/
def ElementDraft.place (s : Store) : ElementDraft → Value × Store
  | .plain v => (v, s)
  | .schema fields =>
    let (entries, s) := FieldDraft.placeAll s fields
    let (map, s) := s.alloc (.map entries)
    s.alloc (.schema map)

/-- Places the elements of a list tag in order. -/
def ElementDraft.placeAll (s : Store) : List ElementDraft → List Value × Store
  | [] => ([], s)
  | element :: rest =>
    let (v, s) := element.place s
    let (items, s) := ElementDraft.placeAll s rest
    (v :: items, s)

/-- Places a field declaration. -/
def FieldDraft.place (s : Store) : FieldDraft → Value × Store
  | .stored v => (v, s)
  | .fresh tag o =>
    let (tag, s) := tag.place s
    let (choices, s) := s.alloc (.list (o.choices.map .ofText))
    s.alloc (.field {
      tag
      required := .scalar (.bool o.required)
      description := (o.description.map .ofText).getD .null
      sample := o.sample
      choices
      least := (o.least.map Check.Bound.value).getD .null
      greatest := (o.greatest.map Check.Bound.value).getD .null
      target := (o.target.map .ofText).getD .null
      readonly := .scalar (.bool o.readonly) })

/-- Places fields in order. -/
def FieldDraft.placeAll (s : Store) : List (Text × FieldDraft) → List (Value × Value) × Store
  | [] => ([], s)
  | (name, field) :: rest =>
    let (v, s) := field.place s
    let (entries, s) := FieldDraft.placeAll s rest
    ((.ofText name, v) :: entries, s)

end

/-- Places a schema. -/
def SchemaDraft.place (s : Store) (fields : SchemaDraft) : Value × Store :=
  let (entries, s) := FieldDraft.placeAll s fields
  let (map, s) := s.alloc (.map entries)
  s.alloc (.schema map)

end SwaggerDoc
