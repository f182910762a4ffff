import SwaggerDoc.Definition.Shape
import SwaggerDoc.Resource

/-!
The operations on a resource, one for each method.

For a resource `user` with the model `User` on the route `/users`, the methods become

* index: `GET /users`, getUsers
* post: `POST /users`, createUser
* get: `GET /users/{userId}`, getUser
* put: `PUT /users/{userId}`, updateUser
* delete: `DELETE /users/{userId}`, deleteUser
-/

namespace SwaggerDoc

/-- A resource as its operations use it: the value of each attribute and how it is written inside a
longer text. For an accepted resource the two are one text. -/
structure Subject where
  route : Value
  routeText : Text
  name : Value
  nameText : Text
  model : Value
  modelText : Text
  deriving DecidableEq, Repr

/-- An accepted resource as its operations use it. -/
def Resource.subject (r : Resource) : Subject where
  route := .ofText r.route
  routeText := r.route
  name := .ofText r.name
  nameText := r.name
  model := .ofText r.model
  modelText := r.model

namespace Subject

/-- The name of the parameter that identifies a member. -/
def idParameter (r : Subject) : Text := r.nameText ++ text "Id"

/-- The path of one member. -/
def itemPath (r : Subject) : Text :=
  r.routeText ++ text "/\x7b" ++ r.idParameter ++ text "\x7d"

/-- The name of the definition that lists instances of the model. -/
def listModel (r : Subject) : Text := r.modelText ++ text "List"

end Subject

/-- A parameter of an operation. -/
inductive Parameter where
  /-- The id in the path. -/
  | id (name description : Text)
  /-- The body, an instance of a definition. -/
  | body (description model : Text)
  /-- An optional argument of a query. -/
  | query (name kind : String) (absent : Scalar) (description : String)
  deriving DecidableEq, Repr

/-- A response of an operation; `model` names the definition of its body, if it has one. -/
structure Response where
  status : String
  description : String
  model : Option Text
  deriving DecidableEq, Repr

/-- An operation. -/
structure Operation where
  tag : Value
  summary : Text
  description : Text
  operationId : Text
  /-- Whether the operation takes a body. -/
  consumes : Bool
  /-- Whether the operation is open to everyone, whatever the document asks for. -/
  unsecured : Bool
  responses : List Response
  parameters : List Parameter
  deriving DecidableEq, Repr

namespace Method

/-- The verb of a method. -/
def verb : Method → String
  | .index => "get"
  | .post => "post"
  | .get => "get"
  | .put => "put"
  | .delete => "delete"

/-- Whether a method works on one member instead of the collection. -/
def onItem : Method → Bool
  | .index | .post => false
  | .get | .put | .delete => true

end Method

namespace Operation

/-- The arguments that a listing takes. -/
def listArguments : List Parameter :=
  [ .query "skip" "integer" (.int 0)
      "How many records to skip when listing. Used for pagination.",
    .query "limit" "integer" (.int 10) "How many records to limit the output.",
    .query "count" "boolean" (.bool false)
      "Set to true to return the number of records instead of the documents.",
    .query "sort" "string" (.string []) "Which fields to sort the records on.",
    .query "select" "string" (.string []) "Select which fields will be returned by the query.",
    .query "populate" "string" (.string [])
      "Select which fields will be fully populated with the reference." ]

/-- The parameter that identifies the member something happens to. -/
def idOf (r : Subject) (action : String) : Parameter :=
  .id r.idParameter
    (text "The ID of the " ++ r.nameText ++ text " that will be " ++ text action ++ text ".")

/-- Lists and searches the collection. -/
def index (r : Subject) : Operation where
  tag := r.name
  summary := text "List multiple " ++ r.modelText ++ text " resources."
  description := text "This operation allows you to list and search for " ++ r.modelText
    ++ text " resources provided query arguments."
  operationId := text "get" ++ r.modelText ++ text "s"
  consumes := false
  unsecured := false
  responses :=
    [ ⟨"401", "Unauthorized.", none⟩,
      ⟨"200", "Resource(s) found.  Returned as array.", some r.listModel⟩ ]
  parameters := listArguments

/-- Creates a member. -/
def post (r : Subject) : Operation where
  tag := r.name
  summary := text "Create a new " ++ r.modelText
  description := text "Create a new " ++ r.modelText
  operationId := text "create" ++ r.modelText
  consumes := true
  unsecured := true
  responses :=
    [ ⟨"401",
        "Unauthorized.  Note that anonymous submissions are *enabled* by default.", none⟩,
      ⟨"400", "An error has occured trying to create the resource.", none⟩,
      ⟨"201", "The resource has been created.", none⟩ ]
  parameters := [.body (text "Data used to create a new " ++ r.modelText) r.modelText]

/-- Returns a member. -/
def get (r : Subject) : Operation where
  tag := r.name
  summary := text "Return a specific " ++ r.nameText ++ text " instance."
  description := text "Return a specific " ++ r.nameText ++ text " instance."
  operationId := text "get" ++ r.modelText
  consumes := false
  unsecured := false
  responses :=
    [ ⟨"500", "An error has occurred.", none⟩,
      ⟨"404", "Resource not found", none⟩,
      ⟨"401", "Unauthorized.", none⟩,
      ⟨"200", "Resource found", some r.modelText⟩ ]
  parameters := [idOf r "retrieved"]

/-- Updates a member. -/
def put (r : Subject) : Operation where
  tag := r.name
  summary := text "Update a specific " ++ r.nameText ++ text " instance."
  description := text "Update a specific " ++ r.nameText ++ text " instance."
  operationId := text "update" ++ r.modelText
  consumes := true
  unsecured := false
  responses :=
    [ ⟨"500", "An error has occurred.", none⟩,
      ⟨"404", "Resource not found", none⟩,
      ⟨"401", "Unauthorized.", none⟩,
      ⟨"400", "Resource could not be updated.", none⟩,
      ⟨"200", "Resource updated", some r.modelText⟩ ]
  parameters :=
    [idOf r "updated", .body (text "Data used to update " ++ r.modelText) r.modelText]

/-- Deletes a member. -/
def delete (r : Subject) : Operation where
  tag := r.name
  summary := text "Delete a specific " ++ r.nameText
  description := text "Delete a specific " ++ r.nameText
  operationId := text "delete" ++ r.modelText
  consumes := true
  unsecured := false
  responses :=
    [ ⟨"500", "An error has occurred.", none⟩,
      ⟨"404", "Resource not found", none⟩,
      ⟨"401", "Unauthorized.", none⟩,
      ⟨"400", "Resource could not be deleted.", none⟩,
      ⟨"204", "Resource was deleted", none⟩ ]
  parameters := [idOf r "deleted"]

/-- The operation of a method. -/
def of (r : Subject) : Method → Operation
  | .index => index r
  | .post => post r
  | .get => get r
  | .put => put r
  | .delete => delete r

end Operation

/-! ## Shapes -/

/-- A reference to a definition. -/
def referenceShape (model : Text) : Shape := .record [("$ref", .ofText (definitionsPath ++ model))]

/-- The media types that operations take and give. -/
def mediaTypes : Shape := .list [.ofString "application/json"]

namespace Parameter

/-- The shape of a parameter. -/
def shape : Parameter → Shape
  | .id name description => .record
    [ ("name", .ofText name), ("in", .ofString "path"), ("description", .ofText description),
      ("required", .ofBool true), ("type", .ofString "string") ]
  | .body description model => .record
    [ ("in", .ofString "body"), ("name", .ofString "body"), ("description", .ofText description),
      ("required", .ofBool true), ("schema", referenceShape model) ]
  | .query name kind absent description => .record
    [ ("name", .ofString name), ("in", .ofString "query"),
      ("description", .ofString description), ("required", .ofBool false),
      ("type", .ofString kind), ("default", .value (.scalar absent)) ]

end Parameter

/-- The shape of a response. -/
def Response.shape (r : Response) : Shape :=
  .record <| [("description", .ofString r.description)]
    ++ (r.model.map fun m => ("schema", referenceShape m)).toList

/-- The shape of an operation. -/
def Operation.shape (o : Operation) : Shape :=
  .record <|
    [ ("tags", .list [.value o.tag]), ("summary", .ofText o.summary),
      ("description", .ofText o.description), ("operationId", .ofText o.operationId) ]
    ++ (if o.consumes then [("consumes", mediaTypes)] else [])
    ++ [("produces", mediaTypes)]
    ++ (if o.unsecured then [("security", .list [])] else [])
    ++ [ ("responses", .record (o.responses.map fun r => (r.status, r.shape))),
         ("parameters", .list (o.parameters.map Parameter.shape)) ]

end SwaggerDoc
