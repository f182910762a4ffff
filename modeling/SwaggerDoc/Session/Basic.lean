import SwaggerDoc.Document.Compile
import SwaggerDoc.Render.Document
import SwaggerDoc.Session.Reach

/-!
Sessions: steps that share variables, places and one journal.

A step that fails binds nothing, but the fallbacks on the way to its failure stay noted. What a
variable is bound to can be changed through any value that shares the place.
-/

namespace SwaggerDoc

/-- What the steps of a session share. -/
structure Session where
  store : Store
  bindings : List (Text × Value)
  journal : Journal

/-- A step of a session. Variables are given by name; the first name of a step is what its result is
bound to. -/
inductive SessionStep where
  | bind (name : Text) (v : Value)
  /-- A schema from the value given for its fields. -/
  | schema (name : Text) (fields : Value)
  /-- A resource from a mapping of its attributes. -/
  | resource (name : Text) (attributes : Value)
  /-- A resource like another, with the methods that a text names. -/
  | withMethods (name source : Text) (methods : Text)
  | assign (name : Text) (way : Way) (v : Value)
  | append (name : Text) (way : Way) (v : Value)
  | delete (name : Text) (way : Way)
  | look (name : Text) (way : Way)
  | property (name : Text) (options : Value) (definition : Text)
  | define (name schema definition : Text)
  /-- Variables that are not bound stand for an absent schema or definition. -/
  | compile (name resource : Text) (schema definition : Option Text)
  | required (schema : Text)
  | writable (name definition schema : Text)
  | render (document format : Text)
  | equal (left right : Text)

/-- What a step answers. -/
inductive SessionAnswer where
  | done
  | value (v : Value)
  | values (vs : List Value)
  | text (t : Text)
  | truth (b : Bool)
  deriving DecidableEq

namespace Session

/-- A session before its first step. -/
def start : Session := ⟨Store.empty, [], ⟨some [], []⟩⟩

/-- What a variable is bound to. -/
def boundTo (s : Session) (name : Text) : Except Fault Value :=
  match s.bindings.lookup name with
  | some v => .ok v
  | none => .error .noKey

/-- What a variable is bound to, or nothing. -/
def boundOrNull (s : Session) (name : Option Text) : Value :=
  (name.bind fun n => s.bindings.lookup n).getD .null

/-- Binds a variable. -/
def set (s : Session) (name : Text) (v : Value) : Session :=
  { s with bindings := (name, v) :: s.bindings.filter (·.1 != name) }

/-- Goes on with another store. -/
def withStore (s : Session) (store : Store) : Session := { s with store }

/-- A step that changes the store, or fails and changes nothing. -/
def change (s : Session) (r : Except Fault Store) : Session × Except Fault SessionAnswer :=
  match r with
  | .ok store => (s.withStore store, .ok .done)
  | .error f => (s, .error f)

/-- A step that binds a value in a new store, or fails and changes nothing. -/
def produce (s : Session) (name : Text) (r : Except Fault (Value × Store)) :
    Session × Except Fault SessionAnswer :=
  match r with
  | .ok (v, store) => ((s.withStore store).set name v, .ok (.value v))
  | .error f => (s, .error f)

/-- A step that only looks. -/
def observe (s : Session) (r : Except Fault SessionAnswer) :
    Session × Except Fault SessionAnswer := (s, r)

/-- A step that notes fallbacks and binds what its shape is placed as. -/
def report (s : Session) (name : Text) (r : Report (Option Shape)) :
    Session × Except Fault SessionAnswer :=
  let (result, journal) := r s.journal
  let noted := { s with journal }
  noted.produce name <| result.map fun
    | none => (.null, s.store)
    | some shape => shape.place s.store

/-- A report on what variables are bound to. -/
def reportOn {α : Type} (v : Except Fault α) (r : α → Report (Option Shape)) :
    Report (Option Shape) := do r (← .ofExcept v)

/-- A copy of a model with other methods, which shares all other attributes with it. A model that
has no attribute for them is given them beside its own. -/
def copyWithMethods (s : Store) (source : Value) (methods : Text) :
    Except Fault (Value × Store) :=
  match source with
  | .scalar _ => .error .noAttribute
  | .ref p =>
    match (s.cell? p).filter (·.attributes?.isSome) with
    | none => .error .noAttribute
    | some model => do
      let found ← Resource.methodsOf methods
      let (list, s) := s.alloc (.list (found.map fun m => .scalar (.method m)))
      let (model, given) := match model with
        | .resource r => (Cell.resource { r with methods := list }, [])
        | model => (model, [(SwaggerDoc.text "methods", list)])
      let (copy, t) := s.alloc model
      return (copy, t.giveAll s.size (s.givenTo p ++ given))

/-- A value can be assigned to the end of a way unless this fails. -/
def readyToAssign (s : Session) (name : Text) (way : Way) : Except Fault Unit := do
  let _ ← s.store.beforeLast (← s.boundTo name) way

/-- A value can be appended at the end of a way unless this fails. -/
def readyToAppend (s : Session) (name : Text) (way : Way) : Except Fault Unit := do
  let _ ← s.store.listAt (← s.boundTo name) way

/-- Carries out a step. -/
def run (s : Session) (step : SessionStep) : Session × Except Fault SessionAnswer :=
  let store := s.store
  match step with
  | .bind name v => s.produce name (.ok (v, store))
  | .schema name fields => s.produce name do
    let draft ← SchemaDraft.check store [(.ofText (SwaggerDoc.text "fields"), fields)]
    return SchemaDraft.place store draft
  | .resource name attributes => s.produce name do
    let r ← Resource.check store (← Check.given store attributes)
    return r.place store
  | .withMethods name source methods => s.produce name do
    copyWithMethods store (← s.boundTo source) methods
  | .assign name way v => s.change do store.assign (← s.boundTo name) way v
  | .append name way v => s.change do store.append (← s.boundTo name) way v
  | .delete name way => s.change do store.delete (← s.boundTo name) way
  | .look name way => s.observe do return .value (← store.reach (← s.boundTo name) way)
  | .property name options definition => s.report name (store.propertyOf options definition)
  | .define name schema definition =>
    s.report name <| reportOn (s.boundTo schema) fun schema => do
      return some (← store.definitionOf schema definition)
  | .compile name resource schema definition =>
    s.report name <| reportOn (s.boundTo resource) fun resource => do
      let document ←
        store.compile resource (s.boundOrNull schema) (s.boundOrNull definition)
      return some document.shape
  | .required schema => s.observe do
    return .values (← store.requiredNames (← s.boundTo schema))
  | .writable name definition schema => s.produce name do
    let properties ←
      store.writableProperties (← s.boundTo definition) (← s.boundTo schema)
    return store.alloc (.list properties)
  | .render document format => s.observe do
    return .text (← store.renderNamed (← s.boundTo document) format)
  | .equal left right => s.observe do
    return .truth (← store.equal (← s.boundTo left) (← s.boundTo right))

end Session

end SwaggerDoc
