import SwaggerDoc.Document.Compile
import SwaggerDoc.Proofs.Store.ShapeValues

/-!
The values that come into documents.

Operations are made of plain scalars and of the name of the resource, and nothing in them is a copy.
So the values in a document are plain scalars, the attributes of its subject and what comes in with
the definition.
-/

namespace SwaggerDoc

open Shape

/-- What stands for an argument that is left out is a plain scalar. -/
def Parameter.IsPlain : Parameter → Prop
  | .query _ _ absent _ => absent.isPlain = true
  | _ => True

section Operations

variable {shared copied : Value → Prop}
  (plain : ∀ x : Scalar, x.isPlain = true → shared (.scalar x))

include plain

theorem takes_referenceShape (model : Text) :
    (referenceShape model).Takes shared copied := by
  refine takes_record (fun _ => plain _ rfl) fun e listed => ?_
  rw [List.mem_singleton.mp listed]
  exact takes_value (plain _ rfl)

theorem takes_mediaTypes : mediaTypes.Takes shared copied := by
  refine takes_list fun e listed => ?_
  rw [List.mem_singleton.mp listed]
  exact takes_value (plain _ rfl)

theorem Parameter.takes_shape {p : Parameter} (absent : p.IsPlain) :
    p.shape.Takes shared copied := by
  cases p with
  | id name description =>
    refine takes_record (fun _ => plain _ rfl) fun e listed => ?_
    simp only [List.mem_cons, List.not_mem_nil, or_false] at listed
    rcases listed with rfl | rfl | rfl | rfl | rfl <;> exact takes_value (plain _ rfl)
  | body description model =>
    refine takes_record (fun _ => plain _ rfl) fun e listed => ?_
    simp only [List.mem_cons, List.not_mem_nil, or_false] at listed
    rcases listed with rfl | rfl | rfl | rfl | rfl
    · exact takes_value (plain _ rfl)
    · exact takes_value (plain _ rfl)
    · exact takes_value (plain _ rfl)
    · exact takes_value (plain _ rfl)
    · exact takes_referenceShape plain model
  | query name kind absent description =>
    refine takes_record (fun _ => plain _ rfl) fun e listed => ?_
    simp only [List.mem_cons, List.not_mem_nil, or_false] at listed
    rcases listed with rfl | rfl | rfl | rfl | rfl | rfl
    · exact takes_value (plain _ rfl)
    · exact takes_value (plain _ rfl)
    · exact takes_value (plain _ rfl)
    · exact takes_value (plain _ rfl)
    · exact takes_value (plain _ rfl)
    · exact takes_value (plain _ absent)

theorem Response.takes_shape (r : Response) :
    r.shape.Takes shared copied := by
  refine takes_record (fun _ => plain _ rfl) fun e listed => ?_
  rcases List.mem_append.mp listed with described | modelled
  · rw [List.mem_singleton.mp described]
    exact takes_value (plain _ rfl)
  · cases model : r.model with
    | none => simp [model] at modelled
    | some m =>
      rw [model] at modelled
      rw [List.mem_singleton.mp modelled]
      exact takes_referenceShape plain m

theorem Operation.takes_shape {o : Operation} (tag : shared o.tag)
    (parameters : ∀ p ∈ o.parameters, p.IsPlain) : o.shape.Takes shared copied := by
  refine takes_record (fun _ => plain _ rfl) fun e listed => ?_
  simp only [List.mem_append, List.mem_cons, List.not_mem_nil, or_false] at listed
  rcases listed with ((((rfl | rfl | rfl | rfl) | consumes) | rfl) | unsecured) | rfl | rfl
  · refine takes_list fun e listed => ?_
    rw [List.mem_singleton.mp listed]
    exact takes_value tag
  · exact takes_value (plain _ rfl)
  · exact takes_value (plain _ rfl)
  · exact takes_value (plain _ rfl)
  · split at consumes
    · rw [List.mem_singleton.mp consumes]
      exact takes_mediaTypes plain
    · cases consumes
  · exact takes_mediaTypes plain
  · split at unsecured
    · rw [List.mem_singleton.mp unsecured]
      exact takes_list nofun
    · cases unsecured
  · refine takes_record (fun _ => plain _ rfl) fun e listed => ?_
    obtain ⟨r, -, rfl⟩ := List.mem_map.mp listed
    exact r.takes_shape plain
  · refine takes_list fun e listed => ?_
    obtain ⟨p, member, rfl⟩ := List.mem_map.mp listed
    exact Parameter.takes_shape plain (parameters p member)

theorem Operation.takes_of {r : Subject} (name : shared r.name) (m : Method) :
    (Operation.of r m).shape.Takes shared copied := by
  have tag : (Operation.of r m).tag = r.name := by cases m <;> rfl
  refine Operation.takes_shape plain (tag ▸ name) ?_
  cases m <;> simp [Operation.of, Operation.index, Operation.post, Operation.get, Operation.put,
    Operation.delete, Operation.listArguments, Operation.idOf, Parameter.IsPlain, Scalar.isPlain]

theorem PathItem.takes_shape {p : PathItem}
    (operations : ∀ o ∈ p.operations, o.2.shape.Takes shared copied) :
    p.shape.2.Takes shared copied := by
  refine takes_record (fun _ => plain _ rfl) fun e listed => ?_
  obtain ⟨⟨verb, o⟩, member, rfl⟩ := List.mem_map.mp listed
  exact operations _ member

end Operations

namespace Document

/-- Every path of a document is the route or a text, and every operation is that of a method. -/
theorem mem_pathsOf {r : Subject} {enabled : List Method} {p : PathItem}
    (member : p ∈ pathsOf r enabled) :
    (p.path = r.route ∨ ∃ t, p.path = .ofText t) ∧
      ∀ o ∈ p.operations, ∃ m, o.2 = Operation.of r m := by
  have methods (onItem : Bool) :
      ∀ o ∈ operationsOn r onItem enabled, ∃ m, o.2 = Operation.of r m := by
    intro o listed
    obtain ⟨m, -, rfl⟩ := List.mem_map.mp listed
    exact ⟨m, rfl⟩
  have only {path : Value} {operations : List (String × Operation)}
      (listed : p ∈ pathItem path operations) : p = ⟨path, operations⟩ := by
    unfold pathItem at listed
    split at listed
    · cases listed
    · exact List.mem_singleton.mp listed
  rcases List.mem_append.mp member with collection | item
  · rw [only collection]
    exact ⟨.inl rfl, methods false⟩
  · rw [only item]
    exact ⟨.inr ⟨_, rfl⟩, methods true⟩

/-- The values of a document are plain scalars, the attributes of its subject and those of its
definition. -/
theorem takes_shape {shared copied : Value → Prop} {r : Subject} {enabled : List Method}
    {definition : ModelDefinition} (plain : ∀ x : Scalar, x.isPlain = true → shared (.scalar x))
    (route : shared r.route) (name : shared r.name) (model : shared r.model)
    (defined : definition.shape.Takes shared copied) :
    (Document.of r enabled definition).shape.Takes shared copied := by
  refine takes_record (fun _ => plain _ rfl) fun e listed => ?_
  simp only [List.mem_cons, List.not_mem_nil, or_false] at listed
  rcases listed with rfl | rfl
  · refine takes_map fun f listed => ?_
    simp only [List.mem_cons, List.not_mem_nil, or_false] at listed
    rcases listed with rfl | rfl
    · exact ⟨model, defined⟩
    · refine ⟨plain _ rfl, takes_record (fun _ => plain _ rfl) fun g listed => ?_⟩
      simp only [List.mem_cons, List.not_mem_nil, or_false] at listed
      rcases listed with rfl | rfl
      · exact takes_value (plain _ rfl)
      · exact takes_referenceShape plain _
  · refine takes_map fun f listed => ?_
    obtain ⟨p, member, rfl⟩ := List.mem_map.mp listed
    obtain ⟨path, methods⟩ := mem_pathsOf member
    have operations : ∀ o ∈ p.operations, o.2.shape.Takes shared copied := by
      intro o listed
      obtain ⟨m, same⟩ := methods o listed
      rw [same]
      exact Operation.takes_of plain name m
    refine ⟨?_, PathItem.takes_shape plain operations⟩
    change shared p.path
    rcases path with same | ⟨t, same⟩
    · rw [same]
      exact route
    · rw [same]
      exact plain _ rfl

end Document

end SwaggerDoc
