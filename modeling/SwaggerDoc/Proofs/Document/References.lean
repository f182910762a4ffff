import SwaggerDoc.Proofs.Document.Operations

/-!
References in documents.

Outside the definition of the model, a document is made of scalars. The references in it are to the
model and to the list of its instances, and both are among the definitions, whatever the model is
called (`references_of_document`). A key of the paths that is spelled like a reference is a path.

The operations are told apart by their ids: what is put in front of the name of the model is
different from method to method, and where it is not, something is put behind it.
-/

namespace SwaggerDoc

/-! ## Entries at any depth -/

/-- An entry of the mapping that a value points to, or of something that is reached from there. -/
inductive Store.HasEntry (u : Store) (e : Value × Value) : Value → Prop
  | here {v : Value} : e ∈ u.entriesAt v → HasEntry u e v
  | inside {v w : Value} {c : Cell} :
    u.deref? v = some c → w ∈ c.parts → HasEntry u e w → HasEntry u e v

/-- The shape is made of scalars, and each of its entries, at any depth, is as said. -/
inductive Shape.EntriesAre (P : Value → Shape → Prop) : Shape → Prop
  | value (x : Scalar) : EntriesAre P (.value (.scalar x))
  | list {items : List Shape} : (∀ item ∈ items, EntriesAre P item) → EntriesAre P (.list items)
  | map {entries : List (Value × Shape)} : (∀ e ∈ entries, ∃ x, e.1 = .scalar x) →
    (∀ e ∈ entries, P e.1 e.2) → (∀ e ∈ entries, EntriesAre P e.2) → EntriesAre P (.map entries)

namespace Shape

variable {P : Value → Shape → Prop}

theorem entriesAre_ofText (t : Text) : (ofText t).EntriesAre P := .value _

theorem entriesAre_ofString (s : String) : (ofString s).EntriesAre P := .value _

theorem entriesAre_ofBool (b : Bool) : (ofBool b).EntriesAre P := .value _

theorem entriesAre_record {record : List (String × Shape)}
    (inside : ∀ e ∈ record, P (.ofText (text e.1)) e.2 ∧ e.2.EntriesAre P) :
    (Shape.record record).EntriesAre P := by
  refine .map ?_ ?_ ?_ <;> refine List.forall_mem_map.mpr fun e listed => ?_
  · exact ⟨_, rfl⟩
  · exact (inside e listed).1
  · exact (inside e listed).2

end Shape

namespace Store.HasEntry

variable {u : Store} {e : Value × Value} {v : Value}

theorem not_scalar {x : Scalar} : ¬ u.HasEntry e (.scalar x) := by
  rintro (member | ⟨cell, -, -⟩)
  · cases member
  · cases cell

theorem of_list {items : List Shape} (stands : (Shape.list items).StandsAt u v)
    (has : u.HasEntry e v) : ∃ item ∈ items, ∃ w, item.StandsAt u w ∧ u.HasEntry e w := by
  obtain ⟨values, cell, all⟩ := stands
  cases has with
  | here member =>
    rw [entriesAt, cell] at member
    cases member
  | inside cell' member has =>
    obtain rfl := Option.some.inj (cell'.symm.trans cell)
    obtain ⟨item, listed, stands⟩ := exists_of_mem_right (Shape.forall₂_of_allStandAt all) member
    exact ⟨item, listed, _, stands, has⟩

/-- Keys are scalars, so an entry below a mapping is its own or below one of its values. -/
theorem of_map {entries : List (Value × Shape)} (stands : (Shape.map entries).StandsAt u v)
    (keys : ∀ f ∈ entries, ∃ x, f.1 = .scalar x) (has : u.HasEntry e v) :
    e ∈ u.entriesAt v ∨ ∃ f ∈ entries, ∃ w, f.2.StandsAt u w ∧ u.HasEntry e w := by
  cases has with
  | here member => exact .inl member
  | inside cell' member has =>
    obtain ⟨values, cell, all⟩ := stands
    obtain rfl := Option.some.inj (cell'.symm.trans cell)
    obtain ⟨entry, listed, part⟩ := List.mem_flatMap.mp member
    obtain ⟨f, listed, key, stands⟩ :=
      exists_of_mem_right (Shape.forall₂_of_entriesStandAt all) listed
    rcases List.mem_cons.mp part with rfl | part
    · obtain ⟨x, scalar⟩ := keys f listed
      rw [key, scalar] at has
      exact absurd has not_scalar
    · rw [List.mem_singleton.mp part] at has
      exact .inr ⟨f, listed, _, stands, has⟩

end Store.HasEntry

/-- An entry below a placed shape is one of the shape. -/
theorem Shape.EntriesAre.of_hasEntry {P : Value → Shape → Prop} {u : Store} {e : Value × Value}
    {v : Value} {shape : Shape} (are : shape.EntriesAre P) (stands : shape.StandsAt u v)
    (has : u.HasEntry e v) : ∃ part, P e.1 part ∧ part.StandsAt u e.2 := by
  -- The shape is followed down to the entry: what stands for a part of it is reached from there only.
  induction are generalizing v with
  | value x =>
    obtain rfl := stands
    exact absurd has Store.HasEntry.not_scalar
  | list items ih =>
    obtain ⟨item, listed, w, stands, has⟩ := has.of_list stands
    exact ih item listed stands has
  | map keys here inside ih =>
    rcases has.of_map stands keys with member | ⟨f, listed, w, stands, has⟩
    · obtain ⟨f, listed, key, stands⟩ :=
        exists_of_mem_right (forall₂_of_entriesStandAt (entriesAt_of_standsAt stands)) member
      exact ⟨f.2, key ▸ here f listed, stands⟩
    · exact ih f listed stands has

/-! ## References -/

/-- The key of references. -/
def referenceKey : Value := .ofText (text "$ref")

/-- The value points to a reference to the definition. -/
def Store.RefersTo (u : Store) (v : Value) (model : Text) : Prop :=
  u.entriesAt v = [(referenceKey, .ofText (definitionsPath ++ model))]

theorem refersTo_of_standsAt {u : Store} {v : Value} {model : Text}
    (stands : (referenceShape model).StandsAt u v) : u.RefersTo v model := by
  obtain ⟨_, cell, _, _, rfl, rfl, rfl⟩ := stands
  rw [Store.RefersTo, Store.entriesAt, cell]
  rfl

section Entries

variable (models : List Text)

/-- What stands behind the key of references refers to one of the definitions. -/
def RefersAmong (key : Value) (shape : Shape) : Prop :=
  key = referenceKey → ∃ model ∈ models, shape = .ofText (definitionsPath ++ model)

variable {models}

theorem refersAmong_of_ne {key : String} (other : key ≠ "$ref") (shape : Shape) :
    RefersAmong models (.ofText (text key)) shape := by
  intro same
  exact absurd (text_injective (Scalar.string.inj (Value.scalar.inj same))) other

theorem entriesAre_of_ne {record : List (String × Shape)}
    (inside : ∀ e ∈ record, e.1 ≠ "$ref" ∧ e.2.EntriesAre (RefersAmong models)) :
    (Shape.record record).EntriesAre (RefersAmong models) :=
  Shape.entriesAre_record fun e listed =>
    ⟨refersAmong_of_ne (inside e listed).1 e.2, (inside e listed).2⟩

theorem entriesAre_referenceShape {model : Text} (among : model ∈ models) :
    (referenceShape model).EntriesAre (RefersAmong models) := by
  refine Shape.entriesAre_record fun e listed => ?_
  rw [List.mem_singleton.mp listed]
  exact ⟨fun _ => ⟨model, among, rfl⟩, Shape.entriesAre_ofText _⟩

theorem entriesAre_mediaTypes : mediaTypes.EntriesAre (RefersAmong models) :=
  .list (List.forall_mem_singleton.mpr (Shape.entriesAre_ofString _))

theorem Parameter.entriesAre_shape {p : Parameter}
    (among : ∀ description model, p = .body description model → model ∈ models) :
    p.shape.EntriesAre (RefersAmong models) := by
  cases p with
  | id name description =>
    exact entriesAre_of_ne (by simp [Shape.entriesAre_ofText, Shape.entriesAre_ofString,
      Shape.entriesAre_ofBool])
  | body description model =>
    exact entriesAre_of_ne (by simp [Shape.entriesAre_ofText, Shape.entriesAre_ofString,
      Shape.entriesAre_ofBool, entriesAre_referenceShape (among description model rfl)])
  | query name kind absent description =>
    exact entriesAre_of_ne (by simp [Shape.entriesAre_ofString, Shape.entriesAre_ofBool,
      Shape.EntriesAre.value])

theorem Response.entriesAre_shape {response : Response}
    (among : ∀ model, response.model = some model → model ∈ models) :
    response.shape.EntriesAre (RefersAmong models) := by
  refine entriesAre_of_ne (List.forall_mem_append.mpr ⟨by simp [Shape.entriesAre_ofString], ?_⟩)
  intro e listed
  obtain ⟨model, refers, rfl⟩ := Option.map_eq_some_iff.mp (Option.mem_toList.mp listed)
  exact ⟨by simp, entriesAre_referenceShape (among model refers)⟩

theorem Operation.entriesAre_shape {o : Operation} {tag : Scalar} (tagged : o.tag = .scalar tag)
    (responses : ∀ response ∈ o.responses, response.status ≠ "$ref" ∧
      ∀ model, response.model = some model → model ∈ models)
    (parameters : ∀ description model, .body description model ∈ o.parameters → model ∈ models) :
    o.shape.EntriesAre (RefersAmong models) := by
  have answers : (Shape.record (o.responses.map fun r => (r.status, r.shape))).EntriesAre
      (RefersAmong models) := by
    refine entriesAre_of_ne (List.forall_mem_map.mpr fun response listed => ?_)
    exact ⟨(responses response listed).1,
      Response.entriesAre_shape (responses response listed).2⟩
  have arguments : (Shape.list (o.parameters.map Parameter.shape)).EntriesAre
      (RefersAmong models) := by
    refine .list (List.forall_mem_map.mpr fun p listed => Parameter.entriesAre_shape ?_)
    rintro description model rfl
    exact parameters description model listed
  have tags : (Shape.list [.value o.tag]).EntriesAre (RefersAmong models) :=
    .list (List.forall_mem_singleton.mpr (tagged ▸ .value tag))
  have none : (Shape.list []).EntriesAre (RefersAmong models) := .list (List.forall_mem_nil _)
  refine entriesAre_of_ne ?_
  cases o.consumes <;> cases o.unsecured <;>
    simp [tags, answers, arguments, none, entriesAre_mediaTypes, Shape.entriesAre_ofText]

end Entries

/-! ## The operations of methods -/

/-- The names of the definitions in the document of a resource. -/
def Resource.definitionNames (r : Resource) : List Text := [r.model, r.model ++ text "List"]

namespace Method

/-- Whether the operation of a method takes a body. -/
def takesBody : Method → Bool
  | .post | .put => true
  | .index | .get | .delete => false

/-- The definition that the operation of a method answers with. -/
def answer (r : Resource) : Method → Option Text
  | .index => some (r.model ++ text "List")
  | .get | .put => some r.model
  | .post | .delete => none

theorem takesBody_iff {m : Method} : m.takesBody ↔ m.verb = "post" ∨ m.verb = "put" := by
  cases m <;> decide

theorem isSome_answer_iff {r : Resource} {m : Method} :
    (m.answer r).isSome ↔ m.verb = "get" ∨ m.verb = "put" := by
  cases m <;> simp [answer, verb]

theorem answer_eq {r : Resource} {m : Method} {model : Text} (answers : m.answer r = some model) :
    model = if m.onItem then r.model else r.model ++ text "List" := by
  cases m <;> cases answers <;> rfl

end Method

namespace Operation

variable {r : Resource} {m : Method}

theorem filter_bodies_of (r : Resource) (m : Method) :
    ∃ description, (Operation.of r.subject m).parameters.filter (·.part == "body") =
      if m.takesBody then [.body description r.model] else [] := by
  cases m with
  | index => exact ⟨[], rfl⟩
  | post => exact ⟨_, rfl⟩
  | get => exact ⟨[], rfl⟩
  | put => exact ⟨_, rfl⟩
  | delete => exact ⟨[], rfl⟩

theorem lookup_success_of (r : Resource) (m : Method) :
    ∃ description, ((Operation.of r.subject m).responses.map fun x => (x.status, x.shape)).lookup
      "200" = (m.answer r).map fun model => Response.shape ⟨"200", description, some model⟩ := by
  cases m with
  | index => exact ⟨_, rfl⟩
  | post => exact ⟨"", rfl⟩
  | get => exact ⟨_, rfl⟩
  | put => exact ⟨_, rfl⟩
  | delete => exact ⟨"", rfl⟩

/-- An operation refers to nothing but the model and the list of its instances. -/
theorem entriesAre_of : (Operation.of r.subject m).shape.EntriesAre
    (RefersAmong r.definitionNames) := by
  have tagged : (Operation.of r.subject m).tag = .scalar (.string r.name) := by cases m <;> rfl
  refine entriesAre_shape tagged ?_ ?_
  · cases m <;> simp [of, index, post, get, put, delete, Subject.listModel, Resource.subject,
      Resource.definitionNames]
  · cases m <;> simp [of, index, post, get, put, delete, listArguments, idOf, Resource.subject,
      Resource.definitionNames]

/-- Different methods have different ids, whatever the model is called. -/
theorem operationId_injective (r : Resource) :
    Function.Injective fun m => (Operation.of r.subject m).operationId := by
  intro m n same
  -- Two ids differ in their first letters, or only one of them ends behind the name of the model.
  cases m <;> cases n <;>
    simp_all [of, index, post, get, put, delete, Resource.subject, text]

end Operation

/-! ## References of documents -/

/-- The response of an operation for a status. -/
def Store.responseAt? (u : Store) (operation : Value) (status : String) : Option Value :=
  (u.at? operation "responses").bind (u.at? · status)

/-- The value has a schema that refers to the definition. -/
def Store.HasSchema (u : Store) (v : Value) (model : Text) : Prop :=
  ∃ schema, u.at? v "schema" = some schema ∧ u.RefersTo schema model

/-- What an operation refers to. -/
structure OperationRefers (r : Resource) (u : Store) (o : Store.PlacedOperation) : Prop where
  path : o.path = .ofText r.route ∨ o.path = .ofText r.itemPath
  /-- A body is an instance of the model. -/
  body : ∀ p ∈ u.parametersIn o.value "body", u.HasSchema p r.model
  takes_body : u.parametersIn o.value "body" ≠ [] ↔
    o.verb = .ofText (text "post") ∨ o.verb = .ofText (text "put")
  /-- A member is answered with as an instance of the model. -/
  item : o.path = .ofText r.itemPath → ∀ response,
    u.responseAt? o.value "200" = some response → u.HasSchema response r.model
  /-- The collection is answered with as a list of instances. -/
  collection : o.path = .ofText r.route → ∀ response,
    u.responseAt? o.value "200" = some response → u.HasSchema response (r.model ++ text "List")
  answers : (u.responseAt? o.value "200").isSome ↔
    o.verb = .ofText (text "get") ∨ o.verb = .ofText (text "put")

namespace Method.StandsAs

variable {r : Resource} {u : Store} {m : Method} {o : Store.PlacedOperation}
  (stands : m.StandsAs r u o)
include stands

theorem verb_iff (verb : String) : o.verb = .ofText (text verb) ↔ m.verb = verb := by
  rw [stands.verb]
  constructor
  · intro same
    exact text_injective (Scalar.string.inj (Value.scalar.inj same))
  · rintro rfl
    rfl

theorem bodies : (∀ p ∈ u.parametersIn o.value "body", u.HasSchema p r.model) ∧
    (u.parametersIn o.value "body" ≠ [] ↔ m.takesBody) := by
  have stand := Operation.parametersIn_stand stands.stands "body"
  obtain ⟨description, filtered⟩ := Operation.filter_bodies_of r m
  rw [filtered] at stand
  cases takes : m.takesBody with
  | false =>
    rw [takes, if_neg Bool.false_ne_true] at stand
    simp [List.forall₂_nil_left_iff.mp stand]
  | true =>
    rw [takes, if_pos rfl] at stand
    obtain ⟨p, rest, body, none, eq⟩ := List.forall₂_cons_left_iff.mp stand
    rw [eq, List.forall₂_nil_left_iff.mp none]
    refine ⟨List.forall_mem_singleton.mpr ?_, by simp⟩
    obtain ⟨schema, behind, refers⟩ := Shape.at?_of_lookup "schema" body rfl
    exact ⟨schema, behind, refersTo_of_standsAt refers⟩

theorem success {model : Text} (answers : m.answer r = some model) :
    ∃ response, u.responseAt? o.value "200" = some response ∧ u.HasSchema response model := by
  obtain ⟨responses, behind, list⟩ := Operation.exists_responses stands.stands
  obtain ⟨description, found⟩ := Operation.lookup_success_of r m
  rw [answers, Option.map_some] at found
  obtain ⟨response, here, answer⟩ := Shape.at?_of_lookup _ list found
  obtain ⟨schema, there, refers⟩ := Shape.at?_of_lookup "schema" answer rfl
  exact ⟨response, by rw [Store.responseAt?, behind, Option.bind_some, here],
    schema, there, refersTo_of_standsAt refers⟩

theorem no_success (answers : m.answer r = none) : u.responseAt? o.value "200" = none := by
  obtain ⟨responses, behind, list⟩ := Operation.exists_responses stands.stands
  obtain ⟨description, found⟩ := Operation.lookup_success_of r m
  rw [answers, Option.map_none] at found
  rw [Store.responseAt?, behind, Option.bind_some, Shape.at?_of_lookup_none list found]

/-- The answer is a list on the collection and an instance on a member. -/
theorem hasSchema {response : Value} (found : u.responseAt? o.value "200" = some response) :
    u.HasSchema response (if m.onItem then r.model else r.model ++ text "List") := by
  cases answers : m.answer r with
  | none =>
    rw [stands.no_success answers] at found
    cases found
  | some model =>
    obtain ⟨response', found', schema⟩ := stands.success answers
    obtain rfl := Option.some.inj (found'.symm.trans found)
    rwa [Method.answer_eq answers] at schema

theorem onItem_eq {onItem : Bool} (under : o.path = r.pathOn onItem) : m.onItem = onItem :=
  Resource.pathOn_injective (stands.path.symm.trans under)

theorem operationRefers : OperationRefers r u o where
  path := by
    have path := stands.path
    cases side : m.onItem with
    | false =>
      rw [side] at path
      exact .inl path
    | true =>
      rw [side] at path
      exact .inr path
  body := stands.bodies.1
  takes_body := by
    rw [stands.bodies.2, stands.verb_iff, stands.verb_iff, Method.takesBody_iff]
  item under response found := by
    have side : m.onItem = true := stands.onItem_eq under
    have schema := stands.hasSchema found
    rwa [side] at schema
  collection under response found := by
    have side : m.onItem = false := stands.onItem_eq under
    have schema := stands.hasSchema found
    rwa [side] at schema
  answers := by
    rw [stands.verb_iff, stands.verb_iff, ← Method.isSome_answer_iff (r := r)]
    cases answers : m.answer r with
    | none => simp [stands.no_success answers]
    | some model =>
      obtain ⟨response, found, -⟩ := stands.success answers
      simp [found]

theorem at?_operationId : u.at? o.value "operationId" =
    some (.ofText (Operation.of r.subject m).operationId) :=
  Operation.at?_operationId stands.stands

end Method.StandsAs

/-- The ids of operations are those of their methods. -/
theorem map_operationId {r : Resource} {u : Store} {ms : List Method}
    {operations : List Store.PlacedOperation}
    (stand : List.Forall₂ (Method.StandsAs r u) ms operations) :
    operations.map (fun o => u.at? o.value "operationId") =
      ms.map fun m => some (.ofText (Operation.of r.subject m).operationId) := by
  induction stand with
  | nil => rfl
  | cons stands _ ih => rw [List.map_cons, List.map_cons, stands.at?_operationId, ih]

/-- The text is a reference to one of the definitions. -/
def Store.Resolves (u : Store) (definitions : Value) (target : Text) : Prop :=
  ∃ key, .ofText key ∈ (u.entriesAt definitions).map Prod.fst ∧ target = definitionsPath ++ key

/-- References lead to the definitions of the document, and ids tell its operations apart. -/
structure ReferencesInside (r : Resource) (u : Store) (definitions listed paths : Value) :
    Prop where
  defined : ∃ model, u.entriesAt definitions =
    [(.ofText r.model, model), (.ofText (r.model ++ text "List"), listed)]
  /-- Every reference under the paths is to a definition. -/
  paths_resolve : ∀ target, u.HasEntry (referenceKey, .ofText target) paths →
    u.Resolves definitions target
  /-- A route can be spelled like the key of a reference. Apart from that nothing but references is
  behind this key. -/
  paths_refer : ∀ w, u.HasEntry (referenceKey, w) paths →
    (∃ target, w = .ofText target) ∨ (referenceKey, w) ∈ u.entriesAt paths
  listed_resolve : ∀ w, u.HasEntry (referenceKey, w) listed →
    ∃ target, w = .ofText target ∧ u.Resolves definitions target
  items : ∃ items, u.at? listed "items" = some items ∧ u.RefersTo items r.model
  operations : ∀ o ∈ u.operations paths, OperationRefers r u o
  ids : ∀ o ∈ u.operations paths, ∃ id, u.at? o.value "operationId" = some (.ofText id)
  ids_nodup : ((u.operations paths).map fun o => u.at? o.value "operationId").Nodup

section Document

variable {r : Resource} {u : Store}

theorem PathItem.entriesAre_shape {ms : List Method} {p : PathItem}
    (listed : p ∈ Document.pathsOf r.subject ms) :
    (∃ x, p.path = .scalar x) ∧
      p.shape.2.EntriesAre (RefersAmong r.definitionNames) := by
  obtain ⟨onItem, rfl, -⟩ := Document.mem_pathsOf_subject.mp listed
  refine ⟨⟨_, rfl⟩, entriesAre_of_ne (List.forall_mem_map.mpr fun o member => ?_)⟩
  obtain ⟨m, -, rfl⟩ := List.mem_map.mp member
  exact ⟨by cases m <;> simp [Method.verb], Operation.entriesAre_of⟩

theorem reference_of_hasEntry {shape : Shape} {v w : Value}
    (are : shape.EntriesAre (RefersAmong r.definitionNames))
    (stands : shape.StandsAt u v) (has : u.HasEntry (referenceKey, w) v) :
    ∃ model ∈ r.definitionNames, w = .ofText (definitionsPath ++ model) := by
  obtain ⟨part, refers, stands⟩ := are.of_hasEntry stands has
  obtain ⟨model, among, rfl⟩ := refers rfl
  exact ⟨model, among, stands⟩

/-- An entry under the paths that is spelled like a reference is one, or is a path. -/
theorem reference_of_hasEntry_paths {ms : List Method} {paths w : Value}
    (stands : (Shape.map ((Document.pathsOf r.subject ms).map PathItem.shape)).StandsAt u paths)
    (has : u.HasEntry (referenceKey, w) paths) :
    (referenceKey, w) ∈ u.entriesAt paths ∨
      ∃ model ∈ r.definitionNames, w = .ofText (definitionsPath ++ model) := by
  have keys : ∀ f ∈ (Document.pathsOf r.subject ms).map PathItem.shape, ∃ x, f.1 = .scalar x :=
    List.forall_mem_map.mpr fun p listed => (PathItem.entriesAre_shape listed).1
  rcases has.of_map stands keys with member | ⟨f, listed, v, stands, has⟩
  · exact .inl member
  · obtain ⟨p, item, rfl⟩ := List.mem_map.mp listed
    exact .inr (reference_of_hasEntry (PathItem.entriesAre_shape item).2 stands has)

/-- A path leads to a mapping and not to a text. -/
theorem not_mem_entriesAt_paths {ms : List Method} {paths key : Value} {t : Text}
    (stands : (Shape.map ((Document.pathsOf r.subject ms).map PathItem.shape)).StandsAt u paths) :
    (key, .ofText t) ∉ u.entriesAt paths := by
  intro member
  obtain ⟨f, listed, -, item⟩ := exists_of_mem_right
    (Shape.forall₂_of_entriesStandAt (Shape.entriesAt_of_standsAt stands)) member
  obtain ⟨p, -, rfl⟩ := List.mem_map.mp listed
  obtain ⟨_, cell, -⟩ := item
  cases cell

/-- The definition of the list refers to the model. -/
theorem entriesAre_list : (Shape.record [("type", .ofString "array"),
    ("items", referenceShape r.model)]).EntriesAre
      (RefersAmong r.definitionNames) :=
  entriesAre_of_ne <| by
    simp [Shape.entriesAre_ofString, entriesAre_referenceShape, Resource.definitionNames]

theorem references_of_standsAt {made : ModelDefinition} {v : Value}
    (stands : (r.document made).shape.StandsAt u v) :
    ∃ definitions listed paths, u.at? v "definitions" = some definitions ∧
      u.at? v "paths" = some paths ∧ ReferencesInside r u definitions listed paths := by
  obtain ⟨definitions, behind, standDefinitions⟩ :=
    Shape.at?_of_lookup "definitions" stands rfl
  obtain ⟨paths, behindPaths, standPaths⟩ := Shape.at?_of_lookup "paths" stands rfl
  obtain ⟨paths', same, operations⟩ := r.operations_stand made stands
  obtain rfl := Option.some.inj (same.symm.trans behindPaths)
  rw [r.paths_document] at standPaths
  obtain ⟨_, both, model, _, rfl, -, listed, _, rfl, standListed, rfl⟩ := standDefinitions
  have defined : u.entriesAt definitions =
      [(.ofText r.model, model), (.ofText (r.model ++ text "List"), listed)] := by
    rw [Store.entriesAt, both]
    rfl
  have resolves : ∀ m ∈ r.definitionNames, u.Resolves definitions (definitionsPath ++ m) := by
    intro m among
    refine ⟨m, ?_, rfl⟩
    rw [defined]
    simpa [Resource.definitionNames] using among
  refine ⟨definitions, listed, paths', behind, same, ⟨model, defined⟩, ?_, ?_, ?_, ?_, ?_, ?_, ?_⟩
  · intro target has
    rcases reference_of_hasEntry_paths standPaths has with member | ⟨m, among, refers⟩
    · exact absurd member (not_mem_entriesAt_paths standPaths)
    · obtain rfl := Scalar.string.inj (Value.scalar.inj refers)
      exact resolves m among
  · intro w has
    rcases reference_of_hasEntry_paths standPaths has with member | ⟨m, -, refers⟩
    · exact .inr member
    · exact .inl ⟨_, refers⟩
  · intro w has
    obtain ⟨m, among, refers⟩ := reference_of_hasEntry entriesAre_list standListed has
    exact ⟨_, refers, resolves m among⟩
  · obtain ⟨items, here, refers⟩ := Shape.at?_of_lookup "items" standListed rfl
    exact ⟨items, here, refersTo_of_standsAt refers⟩
  · intro o member
    obtain ⟨m, -, stands⟩ := exists_of_mem_right operations member
    exact stands.operationRefers
  · intro o member
    obtain ⟨m, -, stands⟩ := exists_of_mem_right operations member
    exact ⟨_, stands.at?_operationId⟩
  · rw [map_operationId operations]
    refine r.nodup_enabled.map fun m n same => Operation.operationId_injective r ?_
    exact Scalar.string.inj (Value.scalar.inj (Option.some.inj same))

end Document

/-- The references in the document that a resource is compiled to, wherever it is placed. -/
theorem references_of_document {s : Store} {r : Resource} {v schema definition : Value}
    {j : Journal} {d : Document} (lies : r.LiesAt s v)
    (compiled : (s.compile v schema definition j).1 = .ok d) (t : Store) :
    ∃ definitions listed paths,
      (d.shape.place t).2.at? (d.shape.place t).1 "definitions" = some definitions ∧
      (d.shape.place t).2.at? (d.shape.place t).1 "paths" = some paths ∧
      ReferencesInside r (d.shape.place t).2 definitions listed paths := by
  obtain ⟨made, rfl⟩ := lies.exists_of_compile compiled
  exact references_of_standsAt (Shape.standsAt_place (r.document made).shape t)

/-- A resource without names on a route that is spelled like a reference. -/
def ReferencesSample.resource : Resource := ⟨text "$ref", [], [], Method.all⟩

open OperationsSample ReferencesSample in
/-- Neither empty names nor a path that is spelled like a reference put the references of the sample
in disorder. -/
theorem references_of_sample : Resource.check (store resource) (attributes resource) = .ok resource ∧
    resource.LiesAt (store resource) (.ref 2) ∧
    ((store resource).compile (.ref 2) .null (.ref 0) ⟨none, []⟩).1 =
      .ok (resource.document (.given (.ref 0))) ∧
    ∃ definitions listed paths,
      (placed resource).2.at? (placed resource).1 "definitions" = some definitions ∧
      (placed resource).2.at? (placed resource).1 "paths" = some paths ∧
      ReferencesInside resource (placed resource).2 definitions listed paths :=
  ⟨rfl, liesAt resource, compiled resource,
    references_of_document (liesAt resource) (compiled resource) (store resource)⟩

end SwaggerDoc
