import SwaggerDoc.Proofs.Definition.Grammar
import SwaggerDoc.Proofs.Document.Selection
import Mathlib.Data.List.Forall2

/-!
The operations of a document where it lies.

What a compiled document says can be asked where it is placed: what is behind a key of a mapping
(`Store.at?`), which operations are under the paths (`Store.operations`), and which of their
parameters are in a part of the request (`Store.parametersIn`). The operations there are those of
the enabled methods, one for each and in their order (`Resource.operations_stand`).
-/

namespace SwaggerDoc

section Forall₂

variable {α β : Type} {R : α → β → Prop} {l : List α} {l' : List β}

theorem exists_of_mem_right (all : List.Forall₂ R l l') {b : β} (member : b ∈ l') :
    ∃ a ∈ l, R a b := by
  induction all with
  | nil => cases member
  | cons related _ later =>
    rcases List.mem_cons.mp member with rfl | member
    · exact ⟨_, List.mem_cons_self, related⟩
    · obtain ⟨a, listed, related⟩ := later member
      exact ⟨a, List.mem_cons_of_mem _ listed, related⟩

theorem exists_of_mem_left (all : List.Forall₂ R l l') {a : α} (member : a ∈ l) :
    ∃ b ∈ l', R a b :=
  exists_of_mem_right all.flip member

end Forall₂

namespace Store

/-- The entries of the mapping that a value points to. -/
def entriesAt (u : Store) (v : Value) : List (Value × Value) :=
  match u.deref? v with
  | some (.map entries) => entries
  | _ => []

/-- The items of the list that a value points to. -/
def itemsAt (u : Store) (v : Value) : List Value :=
  match u.deref? v with
  | some (.list items) => items
  | _ => []

/-- The value behind a key of the mapping that a value points to. -/
def at? (u : Store) (v : Value) (key : String) : Option Value := behind? (u.entriesAt v) key

/-- An operation where it lies, with the path and the verb that it is under. -/
structure PlacedOperation where
  path : Value
  verb : Value
  value : Value

/-- The operations under paths, in order. -/
def operations (u : Store) (paths : Value) : List PlacedOperation :=
  (u.entriesAt paths).flatMap fun p => (u.entriesAt p.2).map fun o => ⟨p.1, o.1, o.2⟩

/-- The parameters of an operation that are in the given part of a request. -/
def parametersIn (u : Store) (operation : Value) (part : String) : List Value :=
  ((u.at? operation "parameters").elim [] u.itemsAt).filter fun p =>
    u.at? p "in" == some (.ofText (text part))

end Store

/-! ## Shapes by their entries and items -/

namespace Shape

variable {u : Store} {v : Value}

theorem entriesAt_of_standsAt {entries : List (Value × Shape)}
    (stands : (Shape.map entries).StandsAt u v) : EntriesStandAt u entries (u.entriesAt v) := by
  obtain ⟨values, cell, all⟩ := stands
  rw [Store.entriesAt, cell]
  exact all

theorem itemsAt_of_standsAt {items : List Shape} (stands : (Shape.list items).StandsAt u v) :
    AllStandAt u items (u.itemsAt v) := by
  obtain ⟨values, cell, all⟩ := stands
  rw [Store.itemsAt, cell]
  exact all

/-- What stands behind a key of a record is what the record has there. -/
theorem at?_of_lookup {record : List (String × Shape)} (key : String) {shape : Shape}
    (stands : (Shape.record record).StandsAt u v) (found : record.lookup key = some shape) :
    ∃ w, u.at? v key = some w ∧ shape.StandsAt u w := by
  have behind := behind?_of_entriesStandAt key (entriesAt_of_standsAt stands)
  rw [found] at behind
  exact behind

theorem at?_of_lookup_none {record : List (String × Shape)} {key : String}
    (stands : (Shape.record record).StandsAt u v) (absent : record.lookup key = none) :
    u.at? v key = none := by
  have behind := behind?_of_entriesStandAt key (entriesAt_of_standsAt stands)
  rw [absent] at behind
  exact behind

theorem at?_of_lookup_value {record : List (String × Shape)} {key : String} {w : Value}
    (stands : (Shape.record record).StandsAt u v) (found : record.lookup key = some (.value w)) :
    u.at? v key = some w := by
  obtain ⟨w', behind, rfl⟩ := at?_of_lookup key stands found
  exact behind

theorem forall₂_of_allStandAt : {shapes : List Shape} → {values : List Value} →
    AllStandAt u shapes values → List.Forall₂ (fun shape v => shape.StandsAt u v) shapes values
  | [], _, stand => by
    obtain rfl := stand
    exact .nil
  | _ :: _, _, stand => by
    obtain ⟨v, later, rfl, stands, standLater⟩ := stand
    exact .cons stands (forall₂_of_allStandAt standLater)

theorem forall₂_of_entriesStandAt : {shapes : List (Value × Shape)} →
    {entries : List (Value × Value)} → EntriesStandAt u shapes entries →
      List.Forall₂ (fun shape e => e.1 = shape.1 ∧ shape.2.StandsAt u e.2) shapes entries
  | [], _, stand => by
    obtain rfl := stand
    exact .nil
  | (_, _) :: _, _, stand => by
    obtain ⟨v, later, rfl, stands, standLater⟩ := stand
    exact .cons ⟨rfl, stands⟩ (forall₂_of_entriesStandAt standLater)

end Shape

/-! ## Parameters and responses -/

/-- The part of a request that a parameter is in. -/
def Parameter.part : Parameter → String
  | .id _ _ => "path"
  | .body _ _ => "body"
  | .query _ _ _ _ => "query"

theorem Parameter.at?_in {u : Store} {p : Parameter} {v : Value} (stands : p.shape.StandsAt u v) :
    u.at? v "in" = some (.ofText (text p.part)) := by
  cases p <;> exact Shape.at?_of_lookup_value stands rfl

namespace Operation

/-- The entries of an operation. -/
def record (o : Operation) : List (String × Shape) :=
  [ ("tags", .list [.value o.tag]), ("summary", .ofText o.summary),
    ("description", .ofText o.description), ("operationId", .ofText o.operationId) ]
  ++ (if o.consumes then [("consumes", mediaTypes)] else [])
  ++ [("produces", mediaTypes)]
  ++ (if o.unsecured then [("security", .list [])] else [])
  ++ [ ("responses", .record (o.responses.map fun r => (r.status, r.shape))),
       ("parameters", .list (o.parameters.map Parameter.shape)) ]

theorem shape_eq (o : Operation) : o.shape = .record o.record := rfl

variable {u : Store} {o : Operation} {v : Value} (stands : o.shape.StandsAt u v)
include stands

theorem at?_operationId : u.at? v "operationId" = some (.ofText o.operationId) :=
  Shape.at?_of_lookup_value (shape_eq o ▸ stands) rfl

theorem exists_responses : ∃ w, u.at? v "responses" = some w ∧
    (Shape.record (o.responses.map fun r => (r.status, r.shape))).StandsAt u w := by
  refine Shape.at?_of_lookup _ (shape_eq o ▸ stands) ?_
  rcases o with ⟨tag, summary, description, operationId, _ | _, _ | _, responses, parameters⟩ <;>
    rfl

theorem exists_parameters : ∃ w, u.at? v "parameters" = some w ∧
    (Shape.list (o.parameters.map Parameter.shape)).StandsAt u w := by
  refine Shape.at?_of_lookup _ (shape_eq o ▸ stands) ?_
  rcases o with ⟨tag, summary, description, operationId, _ | _, _ | _, responses, parameters⟩ <;>
    rfl

/-- The parameters in a part of the request are there in their order. -/
theorem parametersIn_stand (part : String) :
    List.Forall₂ (fun p w => p.shape.StandsAt u w) (o.parameters.filter (·.part == part))
      (u.parametersIn v part) := by
  obtain ⟨w, behind, list⟩ := exists_parameters stands
  have all := Shape.forall₂_of_allStandAt (Shape.itemsAt_of_standsAt list)
  rw [List.forall₂_map_left_iff] at all
  rw [Store.parametersIn, behind, Option.elim_some]
  refine List.rel_filter ?_ all
  intro p w stands
  show (p.part == part) = true ↔ (u.at? w "in" == some (.ofText (text part))) = true
  rw [Parameter.at?_in stands, beq_iff_eq, beq_iff_eq, Option.some_inj]
  exact ⟨fun same => by rw [same], fun same => text_injective (by simpa using same)⟩

end Operation

/-! ## The operations of a document -/

/-- The operation at a place is the given one, under the given path and verb. -/
structure Operation.StandsUnder (u : Store) (path : Value) (verb : String) (operation : Operation)
    (o : Store.PlacedOperation) : Prop where
  path : o.path = path
  verb : o.verb = .ofText (text verb)
  stands : operation.shape.StandsAt u o.value

/-- The operation at a place is that of the method, under its path and its verb. -/
def Method.StandsAs (r : Resource) (u : Store) (m : Method) : Store.PlacedOperation → Prop :=
  (Operation.of r.subject m).StandsUnder u (r.pathOn m.onItem) m.verb

theorem Document.flatMap_pathItem {α : Type} (path : Value) (operations : List (String × Operation))
    (f : Value → String × Operation → α) :
    ((pathItem path operations).flatMap fun p => p.operations.map (f p.path)) =
      operations.map (f path) := by
  rcases operations with _ | ⟨first, rest⟩
  · rfl
  · simp [pathItem]

/-- Enabled methods on the collection come before those on members. -/
theorem Resource.enabled_eq (r : Resource) :
    r.enabled = r.enabled.filter (·.onItem == false) ++ r.enabled.filter (·.onItem == true) := by
  have sides : Method.all.filter (·.onItem == false) ++ Method.all.filter (·.onItem == true) =
      Method.all := by decide
  have comm (onItem : Bool) : r.enabled.filter (·.onItem == onItem) =
      (Method.all.filter (·.onItem == onItem)).filter r.has :=
    List.filter_comm ..
  rw [comm, comm, ← List.filter_append, sides]
  rfl

/-- The operations under the paths of a resource are those of its methods. -/
theorem Document.flatMap_pathsOf (r : Resource) :
    ((pathsOf r.subject r.enabled).flatMap fun p => p.operations.map fun o => (p.path, o)) =
      r.enabled.map fun m => (r.pathOn m.onItem, m.verb, Operation.of r.subject m) := by
  have side (onItem : Bool) :
      ((pathItem (r.pathOn onItem) (operationsOn r.subject onItem r.enabled)).flatMap fun p =>
          p.operations.map fun o => (p.path, o)) =
        (r.enabled.filter (·.onItem == onItem)).map fun m =>
          (r.pathOn m.onItem, m.verb, Operation.of r.subject m) := by
    rw [flatMap_pathItem (f := fun path o => (path, o)), operationsOn, List.map_map]
    refine List.map_congr_left fun m kept => ?_
    have same : m.onItem = onItem := by simpa using (List.mem_filter.mp kept).2
    rw [same]
    rfl
  conv_rhs => rw [r.enabled_eq, List.map_append]
  rw [← side false, ← side true, ← List.flatMap_append]
  rfl

/-- Under the paths of a placed document stand the operations of the enabled methods. -/
theorem Resource.operations_stand (r : Resource) (definition : ModelDefinition) {u : Store}
    {v : Value} (stands : (r.document definition).shape.StandsAt u v) :
    ∃ paths, u.at? v "paths" = some paths ∧
      List.Forall₂ (Method.StandsAs r u) r.enabled (u.operations paths) := by
  obtain ⟨paths, behind, standPaths⟩ := Shape.at?_of_lookup "paths" stands rfl
  refine ⟨paths, behind, ?_⟩
  have items := Shape.forall₂_of_entriesStandAt (Shape.entriesAt_of_standsAt standPaths)
  rw [List.forall₂_map_left_iff, r.paths_document] at items
  have side : ∀ (p : PathItem) (e : Value × Value), e.1 = p.path ∧ p.shape.2.StandsAt u e.2 →
      List.Forall₂ (fun x => x.2.2.StandsUnder u x.1 x.2.1)
        (p.operations.map fun o => (p.path, o))
        ((u.entriesAt e.2).map fun o => ⟨e.1, o.1, o.2⟩) := by
    rintro p ⟨path, w⟩ ⟨rfl, item⟩
    have operations := Shape.forall₂_of_entriesStandAt (Shape.entriesAt_of_standsAt item)
    rw [List.forall₂_map_left_iff, List.forall₂_map_left_iff] at operations
    rw [List.forall₂_map_left_iff, List.forall₂_map_right_iff]
    exact operations.imp fun o e ⟨verb, stands⟩ => ⟨rfl, verb, stands⟩
  have all : List.Forall₂ (fun x => x.2.2.StandsUnder u x.1 x.2.1)
      ((Document.pathsOf r.subject r.enabled).flatMap fun p => p.operations.map fun o => (p.path, o))
      (u.operations paths) := List.rel_flatMap items side
  rwa [Document.flatMap_pathsOf, List.forall₂_map_left_iff] at all

namespace OperationsSample

/-- A resource that is given by its attributes and lies in the store, with a definition. -/
def store (r : Resource) : Store := (r.place (Store.empty.alloc (.map [])).2).2

def attributes (r : Resource) : List (Value × Value) :=
  [(.ofText (text "route"), .ofText r.route), (.ofText (text "name"), .ofText r.name),
    (.ofText (text "model_name"), .ofText r.model), (.ofText (text "methods"), .ref 1)]

/-- The document of a resource, placed in its store. -/
def placed (r : Resource) : Value × Store :=
  (r.document (.given (.ref 0))).shape.place (store r)

theorem liesAt (r : Resource) : r.LiesAt (store r) (.ref 2) := ⟨.ref 1, rfl, rfl⟩

theorem compiled (r : Resource) : ((store r).compile (.ref 2) .null (.ref 0) ⟨none, []⟩).1 =
    .ok (r.document (.given (.ref 0))) := by
  rw [(liesAt r).compile_given (by simp)]
  rfl

end OperationsSample

end SwaggerDoc
