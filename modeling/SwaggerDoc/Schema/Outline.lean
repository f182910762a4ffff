import SwaggerDoc.Schema.Draft

/-!
Schemas as they are read for a definition.

An outline is a finite tree: the fields in order, each with its type and its modifiers, and the
schemas in the first position of list tags unfolded in place. It is read from a store in which every
attribute may have been reassigned, so a field can turn out not to be a declaration, and reading can
break off. What lies behind the break is not part of the outline, because nothing looks there. For
the same reason private fields are not part of it: a name that begins with two underscores is
passed, whatever stands behind it.
-/

namespace SwaggerDoc

/-- Names that begin so are private. -/
def isPrivate (name : Text) : Bool := name.startsWith (text "__")

/-- A value with whether it counts as present. -/
structure Attribute where
  value : Value
  present : Bool
  deriving Repr

/-- A value to choose from, or an attribute of a model with its name. -/
inductive Choice where
  | value (v : Value)
  | attribute (name : Text) (v : Value)
  deriving DecidableEq, Repr

/-- What modifies the property of a field, apart from its type. The choices and the target are
already gone through, which fails for values that are no collection or cannot be written. -/
structure Modifiers where
  required : Bool
  description : Attribute
  sample : Value
  choices : Except Fault (List Choice)
  least : Value
  greatest : Value
  target : Except Fault Text
  readonly : Bool

mutual

/-- The type of a field as far as it matters. -/
inductive Tag where
  /-- A list whose first element is a schema. -/
  | nested (element : Outline)
  /-- A list with another first element or none. -/
  | list
  | plain (v : Value)

/-- What stands behind the name of a field. -/
inductive Entry where
  | declared (tag : Tag) (modifiers : Modifiers)
  /-- A value that is no declaration. Its type can be mapped, but it has no modifiers. -/
  | bare (tag : Tag) (target : Except Fault Text)
  | broken (fault : Fault)

/-- The public fields of a schema in order. -/
inductive Outline where
  | done
  | field (name : Name) (entry : Entry) (rest : Outline)
  | broken (fault : Fault)

end

/-! ## The outline of a draft -/

/-- An attribute with a text or nothing. -/
def Attribute.ofText? (t : Option Text) : Attribute :=
  match t with
  | none => ⟨.null, false⟩
  | some t => ⟨.ofText t, !t.isEmpty⟩

/-- The modifiers among accepted options. -/
def Options.modifiers (o : Options) : Modifiers where
  required := o.required
  description := .ofText? o.description
  sample := o.sample
  choices := .ok (o.choices.map fun t => .value (.ofText t))
  least := (o.least.map Check.Bound.value).getD .null
  greatest := (o.greatest.map Check.Bound.value).getD .null
  target := .ok (o.target.getD [])
  readonly := o.readonly

namespace Store

/-- The items of a collection as a list gives them: the characters of a text, the keys of a
mapping, and the attributes of a model. Other values are no collection. -/
def choices (s : Store) (v : Value) : Except Fault (List Choice) :=
  match v with
  | .scalar (.octets o) => .ok (o.map fun n => .value (.ofNat n))
  | .scalar x =>
    match x.asText? with
    | some t => .ok (t.map fun c => .value (.ofText [c]))
    | none => .error .wrongKind
  | .ref p =>
    match s.cell? p with
    | some (.list items) | some (.tuple items) | some (.set items) =>
      .ok (items.map .value)
    | some (.map entries) => .ok (entries.map fun entry => .value entry.1)
    | _ =>
      match s.shownAttributes? p with
      | some attributes => .ok (attributes.map fun (name, v) => .attribute name v)
      | none => .error .wrongKind

/-- The modifiers of a field declaration that lies in the store. -/
def modifiers (s : Store) (f : FieldCell) : Modifiers where
  required := s.truthy f.required
  description := ⟨f.description, s.truthy f.description⟩
  sample := f.sample
  choices := if s.truthy f.choices then s.choices f.choices else .ok []
  least := f.least
  greatest := f.greatest
  target := if s.truthy f.target then s.written f.target else .ok []
  readonly := s.truthy f.readonly

end Store

mutual

/-- Whether reading broke off inside a type. -/
def Tag.isBroken : Tag → Bool
  | .nested o => o.isBroken
  | _ => false

/-- Whether reading broke off inside an entry. -/
def Entry.isBroken : Entry → Bool
  | .declared tag _ => tag.isBroken
  | .bare tag _ => tag.isBroken
  | .broken _ => true

/-- Whether reading broke off before the last field. -/
def Outline.isBroken : Outline → Bool
  | .done => false
  | .field _ entry rest => entry.isBroken || rest.isBroken
  | .broken _ => true

end

/-- The entries of a mapping as fields. Names are texts or pass for them; `entry` reads what stands
behind one that is public, and nothing is read behind an entry that is broken. -/
def Outline.ofEntries (entry : Value → Entry) : List (Value × Value) → Outline
  | [] => .done
  | (key, value) :: rest =>
    match key with
    | .scalar (.octets _) => .broken .wrongKind
    | .scalar x =>
      match Name.ofScalar? x with
      | none => .broken .noAttribute
      | some name =>
        if isPrivate name.characters then ofEntries entry rest
        else
          let e := entry value
          .field name e (if e.isBroken then .broken .tooDeep else ofEntries entry rest)
    | .ref _ => .broken .noAttribute

/-! ## Reading from a store

Each reader is given `nested`, which reads the schema that a value points to. -/

/-- A list tag by its first element. -/
def Tag.ofFirst (s : Store) (nested : Value → Outline) (first : Value) : Tag :=
  match s.deref? first with
  | some (.schema _) => .nested (nested first)
  | _ => .list

/-- The type of a field from its value. -/
def Tag.read (s : Store) (nested : Value → Outline) (v : Value) : Tag :=
  match s.deref? v with
  | some (.list (first :: _)) => .ofFirst s nested first
  | some (.list []) => .list
  | _ => .plain v

/-- A field declaration that lies in the store. -/
def Entry.stored (s : Store) (nested : Value → Outline) (v : Value) : Entry :=
  match s.deref? v with
  | some (.field f) => .declared (.read s nested f.tag) (s.modifiers f)
  | _ => .broken .noAttribute

mutual

/-- The outline of the type of a draft. -/
def TagDraft.outline (s : Store) (nested : Value → Outline) : TagDraft → Tag
  | .plain v => .plain v
  | .list [] => .list
  | .list (element :: _) => element.outline s nested

/-- The outline of a list tag by the draft of its first element. -/
def ElementDraft.outline (s : Store) (nested : Value → Outline) : ElementDraft → Tag
  | .plain v => .ofFirst s nested v
  | .schema fields => .nested (FieldDraft.outlineAll s nested fields)

/-- The outline of a draft. -/
def FieldDraft.outline (s : Store) (nested : Value → Outline) : FieldDraft → Entry
  | .stored v => .stored s nested v
  | .fresh tag options => .declared (tag.outline s nested) options.modifiers

/-- The outline of the fields of a draft. -/
def FieldDraft.outlineAll (s : Store) (nested : Value → Outline) :
    List (Text × FieldDraft) → Outline
  | [] => .done
  | (name, field) :: rest =>
    if isPrivate name then FieldDraft.outlineAll s nested rest
    else .field (.text name) (field.outline s nested) (FieldDraft.outlineAll s nested rest)

end

/-- A field from whatever declares it: a declaration, a mapping with a type, or a bare type. -/
def Entry.ofOptions (s : Store) (nested : Value → Outline) (v : Value) : Entry :=
  let draft? : Except Fault FieldDraft :=
    match s.deref? v with
    | some (.field _) => .ok (.stored v)
    | some (.map entries) =>
      if (lookupText? entries (text "type")).isSome then FieldDraft.check s entries
      else FieldDraft.ofTag s v
    | _ => FieldDraft.ofTag s v
  match draft? with
  | .ok draft => draft.outline s nested
  | .error fault => .broken fault

/-- What stands behind a name in a schema in the store. A value that is no declaration lends its
type and nothing else. -/
def Entry.read (s : Store) (nested : Value → Outline) (v : Value) : Entry :=
  match s.deref? v with
  | some (.field _) => .stored s nested v
  | _ =>
    match Entry.ofOptions s nested v with
    | .declared tag modifiers => .bare tag modifiers.target
    | entry => entry

/-- A schema in the store. The first argument bounds the nesting. -/
def Outline.readWithin (s : Store) : Nat → Value → Outline
  | 0, _ => .broken .tooDeep
  | depth + 1, v =>
    match s.deref? v with
    | some (.schema fields) =>
      match s.deref? fields with
      | some (.map entries) => .ofEntries (.read s (readWithin s depth)) entries
      | _ => .broken .noAttribute
    | _ => .broken .noAttribute

/-- A schema in the store. A schema that does not contain itself is nested less deep than there are
places. -/
def Outline.read (s : Store) (v : Value) : Outline := readWithin s (s.size + 1) v

end SwaggerDoc
