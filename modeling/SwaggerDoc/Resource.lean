import SwaggerDoc.Schema.Checked
import SwaggerDoc.Text.LowerCase

/-!
Resources: a route, the names of a resource and of its model, and the enabled methods.

The route addresses the collection. One member is addressed by the route with a placeholder for its
id behind it, so a route must not itself end in a placeholder.
-/

namespace SwaggerDoc

/-- An accepted resource. -/
structure Resource where
  route : Text
  name : Text
  model : Text
  methods : List Method
  deriving DecidableEq, Repr

namespace Resource

/-- The name of the parameter that identifies a member. -/
def idParameter (r : Resource) : Text := r.name ++ text "Id"

/-- The path of one member. -/
def itemPath (r : Resource) : Text :=
  r.route ++ text "/\x7b" ++ r.idParameter ++ text "\x7d"

/-- Whether a method is enabled. -/
def has (r : Resource) (m : Method) : Bool := r.methods.contains m

/-- The last part of a route, the slashes at its end aside. -/
def lastSegment (route : Text) : Text :=
  ((Text.split 47 (Text.trimEnd (· == 47) route)).getLast?).getD []

/-- Whether a route ends in a placeholder. -/
def endsInPlaceholder (route : Text) : Bool :=
  let last := lastSegment route
  last.startsWith (text "\x7b") && last.endsWith (text "\x7d")

/-- A route that addresses a collection. -/
def checkRoute (v : Value) : Checked Text :=
  (Check.string v).andThen fun route =>
    if endsInPlaceholder route then .issue (.itemRoute route) else .accepted route

/-- A resource from the entries of a mapping. -/
def ofEntries (s : Store) (entries : List (Value × Value)) : Checked Resource :=
  Resource.mk
    <$> Check.required entries "route" checkRoute
    <*> Check.required entries "name" Check.string
    <*> Check.required entries "model_name" Check.string
    <*> Check.optional entries "methods" [] (Check.list s Check.method)

/-- The name of the model of resources. -/
def modelName : Text := text "ResourceDescriptor"

/-- A resource from the attributes given for it. -/
def check (s : Store) (entries : List (Value × Value)) : Except Fault Resource := do
  (ofEntries s (← Check.attributes entries)).result modelName

/-- Places a resource in a store. -/
def place (s : Store) (r : Resource) : Value × Store :=
  let (methods, s) := s.alloc (.list (r.methods.map fun m => .scalar (.method m)))
  s.alloc (.resource ⟨.ofText r.route, .ofText r.name, .ofText r.model, methods⟩)

/-! ## Method lists written as texts -/

/-- The names in a list with commas between, in small letters: blanks around a name do not count,
and neither do names that are nothing but blanks. -/
def methodNames (t : Text) : List Text :=
  ((Text.split 44 t).map (Text.trim Text.isBlank)).filter (!·.isEmpty) |>.map Text.lowerCase

/-- The methods that a written list names, in any letter case. -/
def methodsOf (t : Text) : Except Fault (List Method) :=
  match (methodNames t).mapM Method.ofName? with
  | some methods => .ok methods
  | none => .error (.file (text "Unknown method in " ++ Text.quoted t) none)

end Resource

end SwaggerDoc
