import SwaggerDoc.Proofs.Definition.Visits
import SwaggerDoc.Proofs.Outcome

/-!
Compiling accepted inputs.

With a resource that lies in a store as validation leaves it, nothing but the schema can go wrong:
a given definition leads to a document at once, and a schema leads to one by the pass over its
visits. The document is a function of the resource and of the definition alone.
-/

namespace SwaggerDoc

namespace Resource

/-- The methods that are enabled, in the order of all methods. -/
def enabled (r : Resource) : List Method := Method.all.filter r.has

/-- The resource as its operations use it: without operations on a member, its route and its name
are not written into longer texts. -/
def usedSubject (r : Resource) : Subject :=
  let written (t : Text) : Text := if r.enabled.any (·.onItem) then t else []
  ⟨.ofText r.route, written r.route, .ofText r.name, written r.name, .ofText r.model, r.model⟩

/-- The document of an accepted resource with the given definition. -/
def document (r : Resource) (definition : ModelDefinition) : Document :=
  .of r.usedSubject r.enabled definition

/-- The value points to the resource. -/
def LiesAt (s : Store) (r : Resource) (v : Value) : Prop :=
  ∃ methods, s.deref? v =
      some (.resource ⟨.ofText r.route, .ofText r.name, .ofText r.model, methods⟩) ∧
    s.deref? methods = some (.list (r.methods.map fun m => .scalar (.method m)))

end Resource

theorem Store.sameKey_method (s : Store) (a b : Method) :
    s.sameKey (.scalar (.method a)) (.scalar (.method b)) = (a == b) := by
  cases a <;> cases b <;> rfl

theorem Store.holdsMethod_of_list {s : Store} {v : Value} {methods : List Method}
    (list : s.deref? v = some (.list (methods.map fun m => .scalar (.method m)))) (m : Method) :
    s.holdsMethod v m = .ok (methods.contains m) := by
  cases v with
  | scalar x => cases list
  | ref p =>
    have cell : s.cell? p = some (.list (methods.map fun m => .scalar (.method m))) := list
    simp only [Store.holdsMethod, cell, List.any_map, Function.comp_def, Store.sameKey_method]
    simp only [List.contains_eq_any_beq, Bool.beq_comm]

section Accepted

variable {s : Store} {r : Resource} {c : ResourceCell} {v : Value}

theorem Resource.enabledMethods_eq
    (list : s.deref? c.methods = some (.list (r.methods.map fun m => .scalar (.method m)))) :
    s.enabledMethods c = .ok r.enabled := by
  have holds : (fun m => s.holdsMethod c.methods m) = fun m => .ok (r.has m) := by
    funext m
    exact Store.holdsMethod_of_list list m
  rw [Store.enabledMethods, holds]
  exact Except.filterM_ok r.has Method.all

theorem Resource.LiesAt.documentOf_eq (lies : r.LiesAt s v) (found : s.deref? v = some (.resource c))
    (definition : ModelDefinition) : s.documentOf c definition = .ok (r.document definition) := by
  obtain ⟨methods, cell, list⟩ := lies
  obtain rfl := Cell.resource.inj (Option.some.inj (found.symm.trans cell))
  have hashable (t : Text) : s.hashable (.ofText t) = true := rfl
  have written (t : Text) : s.written (.ofText t) = .ok t := rfl
  have enabled : s.enabledMethods ⟨.ofText r.route, .ofText r.name, .ofText r.model, methods⟩ =
      .ok r.enabled :=
    Resource.enabledMethods_eq list
  simp only [Store.documentOf, written, hashable, enabled, bind, Except.bind]
  cases item : r.enabled.any (·.onItem) <;>
    simp [pure, Except.pure, Resource.document, Resource.usedSubject, item]

theorem Store.definitionName_ofText (t : Text) :
    s.definitionName (.ofText t) = .ofText t := by
  cases t <;> rfl

/-- With a definition, an accepted resource is compiled at once. -/
theorem Resource.LiesAt.compile_given (lies : r.LiesAt s v) {schema definition : Value}
    (given : definition ≠ .null) :
    s.compile v schema definition = pure (r.document (.given definition)) := by
  obtain ⟨methods, cell, -⟩ := id lies
  have compiled := lies.documentOf_eq cell (.given definition)
  have chosen : s.modelDefinition (.ofText r.model) schema definition =
      pure (.given definition) := by
    simp only [Store.modelDefinition, bne_iff_ne.mpr given, if_true]
    rfl
  simp only [Store.compile, cell, given, decide_false, Bool.false_and,
    Bool.false_eq_true, if_false, chosen, pure_bind, compiled, Report.ofExcept_ok]

/-- The definition of a model is that of the accepted schema, after the pass over its visits. -/
theorem AcceptedSchema.LiesAt.modelDefinition_eq {t : AcceptedSchema} {schema : Value}
    (held : t.LiesAt s schema) (model : Text) :
    s.modelDefinition (.ofText model) schema .null =
      Visit.pass (.made t.definition) (t.visits model) := by
  simp only [Store.modelDefinition, bne_self_eq_false, Bool.false_eq_true, if_false,
    Store.definitionName_ofText, held.define_eq model, Visit.pass_bind, Visit.pass_bind_pure]

/-- With a schema, an accepted resource is compiled by the pass over the visits of the schema. -/
theorem Resource.LiesAt.compile_made (lies : r.LiesAt s v) {t : AcceptedSchema} {schema : Value}
    (held : t.LiesAt s schema) :
    s.compile v schema .null =
      Visit.pass (r.document (.made t.definition)) (t.visits r.model) := by
  obtain ⟨methods, cell, -⟩ := id lies
  have compiled := lies.documentOf_eq cell (.made t.definition)
  have chosen := held.modelDefinition_eq r.model
  obtain ⟨p, -, rfl⟩ := held.exists_place
  simp only [Store.compile, cell, reduceCtorEq, decide_false, Bool.and_false, Bool.false_eq_true,
    if_false, chosen, Visit.pass_bind, compiled, Report.ofExcept_ok, Visit.pass_bind_pure]

end Accepted

end SwaggerDoc
