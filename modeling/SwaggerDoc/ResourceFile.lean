import SwaggerDoc.FileTree
import SwaggerDoc.Resource
import SwaggerDoc.Schema.Draft
import SwaggerDoc.Yaml.Loading

/-!
Resource files: the resource of a document with the schema or the definition of its model.

A file is read as UTF-8 and as YAML, of which JSON is taken to be a part. The mapping in it has a
section for the resource and may have one for the schema and one for the definition; other sections
do not count. All sections are checked, so that the issues of all of them are reported together.
-/

namespace SwaggerDoc

/-- What a resource file holds. A section that is left out is null. -/
structure ResourceFile where
  resource : Resource
  /-- The resource in the store. -/
  place : Value
  schema : Value
  definition : Value

namespace ResourceFile

/-- A section that has to be a mapping for a model. -/
def checkModel {α : Type} (s : Store) (model : Text) (check : List (Value × Value) → Checked α)
    (v : Value) : Checked α :=
  match s.deref? v with
  | some (.map entries) => check entries
  | _ => .issue (.notModel model)

/-- A section that may be left out. -/
def checkOptional {α : Type} (check : Value → Checked α) (v : Value) : Checked (Option α) :=
  if v = .null then .accepted none else (check v).map some

/-- The section with the schema. -/
def checkSchema (s : Store) (v : Value) : Checked SchemaDraft :=
  checkModel s (text "Schema") (Draft.ofSchema s (Draft.field s)) v

/-- The section with the definition, of which only the outermost mapping matters. -/
def checkDefinition (s : Store) (v : Value) : Checked (List (Value × Value)) :=
  match s.deref? v with
  | some (.map entries) => .accepted entries
  | _ => .issue .notMap

/-- The sections of a file once all are accepted. -/
structure Sections where
  resource : Resource
  schema : Option SchemaDraft
  definition : Option (List (Value × Value))

/-- Checks all sections, each under its name. -/
def checkSections (s : Store) (resource schema definition : Value) : Checked Sections :=
  Sections.mk
    <$> (checkModel s Resource.modelName (Resource.ofEntries s) resource).within
        (.name (text "resource"))
    <*> (checkOptional (checkSchema s) schema).within (.name (text "schema_"))
    <*> (checkOptional (checkDefinition s) definition).within (.name (text "definition"))

/-- Places accepted sections in a store. A definition gets an outermost mapping of its own. -/
def Sections.place (s : Store) (x : Sections) : ResourceFile × Store :=
  let (resource, s) := x.resource.place s
  let (schema, s) := match x.schema with
    | none => (Value.null, s)
    | some fields => SchemaDraft.place s fields
  let (definition, s) := match x.definition with
    | none => (Value.null, s)
    | some entries => s.alloc (.map entries)
  (⟨x.resource, resource, schema, definition⟩, s)

/-- What a file with the given value holds; `shown` is the path in messages. -/
def ofValue (s : Store) (shown : Text) (v : Value) : Except Fault (ResourceFile × Store) := do
  let absent : Fault := .file (shown ++ text " has no 'resource' section") none
  match s.deref? v with
  | some (.map entries) => do
    let section? (name : String) : Option Value := lookupText? entries (text name)
    match section? "resource" with
    | none => throw absent
    | some resource =>
      let schema := (section? "schema").getD .null
      let definition := (section? "definition").getD .null
      match checkSections s resource schema definition with
      | .accepted sections => return sections.place s
      | .refused issues =>
        throw (.file (text "Invalid resource file " ++ shown) (some issues))
      | .failed fault => throw fault
  | _ => throw absent

/-- Why there is no file with a path. A path without octets is no path of a file, and that is found
before anything else. -/
def refused (p : Path) (reason : Fault) : Fault :=
  if Path.isNameable p.shown then reason else .notEncodable

/-- The text of a file. No file has a NUL in its name. -/
def readText (tree : FileTree) (p : Path) : Except Fault Text :=
  let cannotRead (reason : Text) : Fault :=
    .file (text "Cannot read " ++ p.shown ++ text ": " ++ reason) none
  if p.parts.any (·.contains 0) then .error (refused p .badValue)
  else match tree.read p with
  | .error reason => .error (refused p (cannotRead reason))
  | .ok content =>
    match Octets.decode content with
    | .error m => .error (cannotRead m.message)
    | .ok t => .ok t

/-- Reads a resource file into a store. -/
def load (s : Store) (tree : FileTree) (p : Path) : Except Fault (ResourceFile × Store) := do
  let t ← readText tree p
  match Yaml.load s t with
  | .error .malformed => throw (.file (text "Invalid YAML in " ++ p.shown) none)
  | .error (.fault f) => throw f
  | .ok (v, s) => ofValue s p.shown v

end ResourceFile

end SwaggerDoc
