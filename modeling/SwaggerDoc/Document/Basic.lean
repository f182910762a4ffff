import SwaggerDoc.Definition.Collect
import SwaggerDoc.Document.Operation

/-!
Documents: the definitions and the paths of one resource.

The definitions are the model and the list of its instances. There is a path for the collection if a
method works on it, and a path for a member if a method works on one; each holds its operations in
the order of the methods.
-/

namespace SwaggerDoc

/-- The definition of a model: given, or made from a schema. -/
inductive ModelDefinition where
  | given (v : Value)
  | made (d : Definition)

/-- A path and the operations under it by their verbs. -/
structure PathItem where
  path : Value
  operations : List (String × Operation)

/-- The document of one resource. -/
structure Document where
  subject : Subject
  definition : ModelDefinition
  paths : List PathItem

namespace Document

/-- The enabled methods among those on a member or those on the collection, as operations. -/
def operationsOn (r : Subject) (onItem : Bool) (enabled : List Method) :
    List (String × Operation) :=
  (enabled.filter (·.onItem == onItem)).map fun m => (m.verb, Operation.of r m)

/-- A path, unless no operation is under it. -/
def pathItem (path : Value) (operations : List (String × Operation)) : List PathItem :=
  if operations.isEmpty then [] else [⟨path, operations⟩]

/-- The paths of a resource, the collection before a member. -/
def pathsOf (r : Subject) (enabled : List Method) : List PathItem :=
  pathItem r.route (operationsOn r false enabled)
    ++ pathItem (.ofText r.itemPath) (operationsOn r true enabled)

/-- The document of a resource with the given methods, which are in the order of all methods. -/
def of (r : Subject) (enabled : List Method) (definition : ModelDefinition) : Document :=
  ⟨r, definition, pathsOf r enabled⟩

/-- The number of operations in a document. -/
def operationCount (d : Document) : Nat :=
  d.paths.foldl (fun n p => n + p.operations.length) 0

/-- The number of definitions in a document: the model and the list of its instances. -/
def definitionCount (_ : Document) : Nat := 2

end Document

/-- The shape of the definition of a model; a given one is copied. -/
def ModelDefinition.shape : ModelDefinition → Shape
  | .given v => .copy v
  | .made d => d.shape

/-- The shape of a path with its operations. -/
def PathItem.shape (p : PathItem) : Value × Shape :=
  (p.path, .record (p.operations.map fun (verb, o) => (verb, o.shape)))

/-- The shape of a document. -/
def Document.shape (d : Document) : Shape :=
  .record
    [ ("definitions", .map
        [ (d.subject.model, d.definition.shape),
          (.ofText d.subject.listModel, .record
            [ ("type", .ofString "array"),
              ("items", referenceShape d.subject.modelText) ]) ]),
      ("paths", .map (d.paths.map PathItem.shape)) ]

end SwaggerDoc
