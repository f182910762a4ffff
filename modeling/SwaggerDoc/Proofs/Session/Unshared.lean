import SwaggerDoc.Proofs.Session.Isolation
import SwaggerDoc.Proofs.Yaml.Unmarked

/-!
Compiled documents share nothing inside.

However often one schema, one declaration or one example is used in what is compiled, each use comes
into the document as parts of its own. Examples are the only values from outside that have parts,
and each field has a copy. So where every example is a tree of lists and mappings, the document is a
tree, and its YAML text has no anchors and no aliases.
-/

namespace SwaggerDoc

section Compiling

variable {s : Store} {resource schema methods : Value} {route name model : Text}
  {t : AcceptedSchema}

/-- The document of an accepted schema for a resource with texts takes the examples as copies, and
nothing else that has parts. -/
theorem Store.takes_compile {copied : Value → Prop}
    (cell : s.deref? resource =
      some (.resource ⟨.ofText route, .ofText name, .ofText model, methods⟩))
    (lies : t.LiesAt s schema) (sampled : ∀ x ∈ t.samples, copied x) {j : Journal} {d : Document}
    (done : (s.compile resource schema .null j).1 = .ok d) :
    d.shape.Takes Value.IsPlainScalar copied := by
  have chosen := lies.modelDefinition_eq model
  obtain ⟨p, -, rfl⟩ := lies.exists_place
  simp only [compile, cell, reduceCtorEq, decide_false, Bool.and_false, Bool.false_eq_true,
    if_false, chosen] at done
  obtain ⟨definition, j', made, done⟩ := Report.exists_of_bind done
  obtain rfl := Visit.eq_of_pass made
  obtain ⟨enabled, routeText, nameText, modelText, rfl⟩ := exists_of_documentOf done
  exact Document.takes_shape Value.isPlainScalar ⟨_, rfl, rfl⟩ ⟨_, rfl, rfl⟩ ⟨_, rfl, rfl⟩
    (AcceptedSchema.takes_samples sampled)

end Compiling

namespace Session

variable {σ τ : Session} {name resourceName : Text} {schemaName definitionName : Option Text}
  {resource v : Value}

/-- A step that compiles and answers a value has placed the document that it compiled. -/
theorem exists_document_of_run (bound : σ.boundTo resourceName = .ok resource)
    (compiled : σ.run (.compile name resourceName schemaName definitionName) =
      (τ, .ok (.value v))) :
    ∃ j d, (σ.store.compile resource (σ.boundOrNull schemaName)
        (σ.boundOrNull definitionName) j).1 = .ok d ∧
      d.shape.place σ.store = (v, τ.store) := by
  simp only [run, report, reportOn, bound, Report.ofExcept_ok, pure_bind, produce] at compiled
  split at compiled
  · next w u made =>
    obtain ⟨rfl, answered⟩ := Prod.mk.inj compiled
    obtain rfl := SessionAnswer.value.inj (Except.ok.inj answered)
    obtain ⟨shape?, done, placed⟩ := Except.exists_ok_of_map made
    obtain ⟨d, j, document, same⟩ := Report.exists_of_bind done
    obtain rfl := Except.ok.inj same
    exact ⟨_, d, document, placed⟩
  · cases (Prod.mk.inj compiled).2

/-- Nothing is shared inside a compiled document, however often one schema, declaration or example
is used in what is compiled, if each example by itself is a tree of lists and mappings. The text of
the document in YAML has no anchors and no aliases then. The schema and the texts of the resource
are as validation leaves them; everything else in the session is free. -/
theorem compiled_document_shares_nothing {route title model : Text} {methods : Value}
    {t : AcceptedSchema} (reachable : σ.Reachable) (bound : σ.boundTo resourceName = .ok resource)
    (cell : σ.store.deref? resource =
      some (.resource ⟨.ofText route, .ofText title, .ofText model, methods⟩))
    (undefined : σ.boundOrNull definitionName = .null)
    (lies : t.LiesAt σ.store (σ.boundOrNull schemaName))
    (trees : ∀ x ∈ t.samples, σ.store.IsTree Cell.isListOrMap x)
    (compiled : σ.run (.compile name resourceName schemaName definitionName) =
      (τ, .ok (.value v))) : τ.store.SharesNothing v := by
  obtain ⟨j, d, done, placed⟩ := exists_document_of_run bound compiled
  rw [undefined] at done
  have takes : d.shape.TakesTrees σ.store := σ.store.takes_compile cell lies trees done
  have new := Shape.newTrees_place reachable.closed.store takes
  rw [placed] at new
  exact new.isTree.sharesNothing

namespace TreeSample

/-- A list in a mapping is the example in the options that two fields have in common. -/
def fields : Session :=
  let listed := start.withStore (start.store.alloc (.list [.ofText (text "a")])).2
  let tree := listed.withStore (listed.store.alloc (.map [(.ofText (text "words"), .ref 0)])).2
  let options := tree.withStore (tree.store.alloc
    (.map [(.ofText (text "type"), .ofText (text "String")),
      (.ofText (text "example"), .ref 1)])).2
  options.withStore (options.store.alloc
    (.map [(.ofText (text "tags"), .ref 2), (.ofText (text "marks"), .ref 2)])).2

/-- The schema of the two fields is in the type that two more have in common. -/
def nested : Session :=
  let inner := (fields.run (.schema (text "inner") (.ref 3))).1
  let listed := inner.withStore (inner.store.alloc (.list [.ref 9])).2
  listed.withStore (listed.store.alloc
    (.map [(.ofText (text "first"), .ref 10), (.ofText (text "second"), .ref 10)])).2

def described : Session :=
  let declared := (nested.run (.schema (text "schema") (.ref 11))).1
  let methods := declared.withStore (declared.store.alloc (.list [.ofText (text "put")])).2
  methods.withStore (methods.store.alloc
    (.map [(.ofText (text "route"), .ofText (text "/pets")),
      (.ofText (text "name"), .ofText (text "pet")),
      (.ofText (text "model_name"), .ofText (text "Pet")),
      (.ofText (text "methods"), .ref 20)])).2

def session : Session := (described.run (.resource (text "resource") (.ref 21))).1

def compile : SessionStep :=
  .compile (text "document") (text "resource") (some (text "schema")) none

def compiled : Session := (session.run compile).1

theorem declared_nested : nested.Declared := by
  have empty : start.store.IsData := by
    intro v c cell
    cases v with
    | scalar x => cases cell
    | ref p => exact absurd (Store.lt_size_of_cell? cell) (Nat.not_lt_zero p)
  have filled : fields.Declared :=
    .fill (.fill (.fill (.fill (.data .start empty) nofun rfl) (Store.holds_of_places (by decide))
      rfl) (Store.holds_of_places (by decide)) rfl) (Store.holds_of_places (by decide)) rfl
  have inner : (fields.run (.schema (text "inner") (.ref 3))).1.Declared :=
    filled.step (Store.holds_of_places (by decide)) trivial
  exact .fill (.fill inner (Store.holds_of_places (by decide +kernel)) rfl)
    (Store.holds_of_places (by decide +kernel)) rfl

theorem declared_session : session.Declared := by
  have schema : (nested.run (.schema (text "schema") (.ref 11))).1.Declared :=
    declared_nested.step (Store.holds_of_places (by decide +kernel)) trivial
  have described : described.Declared :=
    .fill (.fill schema (Store.holds_of_places (by decide +kernel)) rfl)
      (Store.holds_of_places (by decide +kernel)) rfl
  exact described.step (Store.holds_of_places (by decide +kernel)) trivial

theorem run_compile_eq : session.run compile = (compiled, .ok (.value (.ref 64))) := by
  have answer : (session.run compile).2 = .ok (.value (.ref 64)) := by decide +kernel
  rw [compiled, ← answer]

/-- Every field has the one example or none. -/
theorem samples_session :
    session.store.Samples fun x => session.store.IsTree Cell.isListOrMap x := by
  have list : session.store.cell? 0 = some (.list [.ofText (text "a")]) := by decide +kernel
  have map : session.store.cell? 1 = some (.map [(.ofText (text "words"), .ref 0)]) := by
    decide +kernel
  have tree : session.store.IsTree Cell.isListOrMap (.ref 1) := by
    have words : session.store.Branches Cell.isListOrMap [.ref 0] [0] :=
      .single list rfl (.scalar rfl .nil)
    exact ⟨[1, 0], .single map rfl (.scalar rfl words), by decide⟩
  have only : ∀ c ∈ session.store.cells.toList, ∀ a ∈ c.attributes?.getD [],
      a.1 = text "example" → a.2 = .ref 1 ∨ a.2 = .null := by decide +kernel
  intro p f cell
  have listed : Cell.field f ∈ session.store.cells.toList :=
    Array.mem_toList_iff.mpr (Array.mem_of_getElem? cell)
  have known : f.sample = .ref 1 ∨ f.sample = .null :=
    only _ listed (text "example", f.sample)
      (by simp [Cell.attributes?, fieldAttributeNames, FieldCell.attributes]) rfl
  rcases known with same | same
  · rw [same]
    exact tree
  · rw [same]
    exact ⟨[], .scalar rfl .nil, .nil⟩

end TreeSample

/-- The one example comes into the document four times, each time as parts of its own. -/
theorem shared_tree_sample_is_unshared :
    TreeSample.session.Reachable ∧
      (∃ t : AcceptedSchema, t.LiesAt TreeSample.session.store (.ref 19) ∧
        ∀ x ∈ t.samples, TreeSample.session.store.IsTree Cell.isListOrMap x) ∧
      TreeSample.session.run TreeSample.compile =
        (TreeSample.compiled, .ok (.value (.ref 64))) ∧
      TreeSample.compiled.store.SharesNothing (.ref 64) := by
  have declared := TreeSample.declared_session
  have bound : TreeSample.session.boundTo (text "resource") = .ok (.ref 23) := by decide +kernel
  have cell : TreeSample.session.store.deref? (.ref 23) = some (.resource
      ⟨.ofText (text "/pets"), .ofText (text "pet"), .ofText (text "Pet"), .ref 22⟩) := by
    decide +kernel
  have named : TreeSample.session.boundOrNull (some (text "schema")) = .ref 19 := by
    decide +kernel
  have schema : TreeSample.session.store.deref? (.ref 19) = some (.schema (.ref 18)) := by
    decide +kernel
  obtain ⟨t, lies⟩ := declared.accepts.schema schema
  have trees := lies.forall_samples TreeSample.samples_session
  refine ⟨declared.reachable, ⟨t, lies, trees⟩, TreeSample.run_compile_eq, ?_⟩
  exact compiled_document_shares_nothing declared.reachable bound cell (boundOrNull_none _)
    (named ▸ lies) trees TreeSample.run_compile_eq

end Session

end SwaggerDoc
