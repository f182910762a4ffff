import SwaggerDoc.Proofs.Session.Declared
import SwaggerDoc.Proofs.Store.Guarded
import SwaggerDoc.Proofs.Store.Placed

/-!
Compiled documents are isolated.

A document is placed behind a guard: it has places of its own and shares nothing with what was
there before but what is rigid. Changes through its variable stay behind the guard as long as they
write nothing that was there before. So all earlier values show what they showed, and the inputs,
which lie in front of the guard as they lay, compile into a document that shows the same again.
-/

namespace SwaggerDoc

/-! ## Compiling depends on the inputs alone -/

section Compiling

variable {s : Store} {r : Resource} {resource schema definition : Value}

/-- With inputs as validation leaves them, compiling is one pass with one document in every store
that has as much. -/
theorem Store.Closed.exists_compile_eq (closed : s.Closed) (lies : r.LiesAt s resource)
    (given : s.Holds definition)
    (described : definition = .null → ∃ t : AcceptedSchema, t.LiesAt s schema) :
    ∃ (d : Document) (visits : List Visit), d.shape.Takes Value.IsPlainScalar s.Holds ∧
      ∀ u, s.Extends u → u.compile resource schema definition = Visit.pass d visits := by
  by_cases absent : definition = .null
  · obtain ⟨t, held⟩ := described absent
    refine ⟨r.document (.made t.definition), t.visits r.model,
      r.takes_document (held.takes_definition closed), fun u extends' => ?_⟩
    rw [absent]
    exact (lies.mono extends').compile_made (held.mono closed extends')
  · refine ⟨r.document (.given definition), [], r.takes_document (Shape.takes_copy given),
      fun u extends' => ?_⟩
    exact (lies.mono extends').compile_given absent

end Compiling

namespace Session

variable {σ τ : Session} {name resourceName : Text} {schemaName definitionName : Option Text}
  {resource v : Value}

theorem run_compile {d : Document} {visits : List Visit}
    (bound : σ.boundTo resourceName = .ok resource)
    (compiles : σ.store.compile resource (σ.boundOrNull schemaName)
      (σ.boundOrNull definitionName) = Visit.pass d visits) :
    ∃ journal, σ.run (.compile name resourceName schemaName definitionName) =
      Session.produce { σ with journal } name
        ((visits.findSome? Visit.fault?).elim (.ok (d.shape.place σ.store)) .error) := by
  have placed : (do
      let document ← σ.store.compile resource (σ.boundOrNull schemaName)
        (σ.boundOrNull definitionName)
      return some document.shape : Report (Option Shape)) = Visit.pass (some d.shape) visits := by
    rw [compiles, Visit.pass_bind, Visit.pass_bind_pure]
  simp only [run, report, reportOn, bound, Report.ofExcept_ok, pure_bind, placed, Visit.pass_apply]
  refine ⟨σ.journal.noteAll ((visits.takeWhile (·.fault?.isNone)).filterMap Visit.fallback?), ?_⟩
  cases visits.findSome? Visit.fault? <;> rfl

/-! ## Changes through one variable -/

end Session

/-- The value points to a place that was not among the first. -/
def Value.IsNew (s : Store) (n : Nat) (v : Value) : Prop :=
  ∀ p, v.place? = some p → n ≤ p ∧ p < s.size

namespace Session

/-- A session goes on by assigning, appending and deleting behind one variable. What is written is
made on the way: it is built of scalars and of places that are not among the first. -/
inductive EditedThrough (name : Text) (n : Nat) (σ : Session) : Session → Prop
  | none : EditedThrough name n σ σ
  | fill {τ : Session} {c : Cell} :
    EditedThrough name n σ τ → (∀ v ∈ c.parts, v.IsNew τ.store n) →
    EditedThrough name n σ (τ.withStore (τ.store.alloc c).2)
  | number {τ : Session} {f : Binary64} :
    EditedThrough name n σ τ → EditedThrough name n σ (τ.withStore (τ.store.number f).2)
  | edit {τ : Session} {step : SessionStep} :
    EditedThrough name n σ τ → step.Edits name → (∀ v ∈ step.values, v.IsNew τ.store n) →
    EditedThrough name n σ (τ.run step).1

@[simp] theorem boundOrNull_none (σ : Session) : σ.boundOrNull none = .null := rfl

/-- Whatever was in the store is guarded against changes through the variable. -/
structure Isolates (s : Store) (name : Text) (v : Value) (τ : Session) : Prop where
  guarded : s.Guarded τ.store
  bound : τ.boundTo name = .ok v
  apart : τ.store.Apart s.size v

variable {s : Store} {σ τ : Session} {name : Text} {v : Value}

theorem boundTo_set (σ : Session) (name : Text) (v : Value) :
    (σ.set name v).boundTo name = .ok v := by
  simp [set, boundTo]

theorem apart_of_isNew {w : Value} (new : w.IsNew τ.store s.size) : τ.store.Apart s.size w :=
  fun p points => .inl (new p points).1

theorem holds_of_isNew {n : Nat} {w : Value} (new : w.IsNew τ.store n) : τ.store.Holds w :=
  fun p points => (new p points).2

theorem Isolates.fill (isolates : Isolates s name v τ) {c : Cell}
    (new : ∀ w ∈ c.parts, w.IsNew τ.store s.size) :
    Isolates s name v (τ.withStore (τ.store.alloc c).2) where
  guarded := isolates.guarded.alloc (fun w part => holds_of_isNew (new w part))
    fun w part => apart_of_isNew (new w part)
  bound := isolates.bound
  apart := isolates.apart.mono (Store.extends_alloc _ _)

theorem Isolates.number (isolates : Isolates s name v τ) (f : Binary64) :
    Isolates s name v (τ.withStore (τ.store.number f).2) := by
  cases f with
  | nan label =>
    obtain ⟨⟨extends', closed, apart⟩, bound, apart'⟩ := isolates
    exact ⟨⟨⟨extends'.size_le, extends'.cell?_eq, extends'.givenTo_eq⟩, closed.number _, apart⟩,
      bound, apart'⟩
  | _ => exact isolates

/-- A change at a place that the variable leads to leaves everything guarded. -/
theorem Isolates.editedAt (isolates : Isolates s name v τ) {way : Way} {p : Place}
    {added : List Value} {t : Store} (reached : τ.store.reach v way = .ok (.ref p))
    (edited : τ.store.EditedAt p added t) (new : ∀ w ∈ added, w.IsNew τ.store s.size) :
    Isolates s name v (τ.withStore t) where
  guarded := by
    refine isolates.guarded.editedAt edited ?_ ?_ ?_
    · exact isolates.guarded.apart_of_reach isolates.apart reached
    · exact fun w added => holds_of_isNew (new w added)
    · exact fun w added => apart_of_isNew (new w added)
  bound := isolates.bound
  apart := isolates.apart.editedAt edited

theorem Isolates.run (isolates : Isolates s name v τ) {step : SessionStep} (edits : step.Edits name)
    (new : ∀ w ∈ step.values, w.IsNew τ.store s.size) : Isolates s name v (τ.run step).1 := by
  rcases run_of_edits edits with same | ⟨target, _, p, _, t, bound, reached, edited, given, goes⟩
  · rw [same]
    exact isolates
  · rw [goes]
    obtain rfl := Except.ok.inj (isolates.bound.symm.trans bound)
    exact isolates.editedAt reached edited fun w added => new w (given w added)

/-- Everything stays guarded, however often something is changed through the variable. -/
theorem Isolates.editedThrough (isolates : Isolates s name v σ)
    (edited : EditedThrough name s.size σ τ) : Isolates s name v τ := by
  induction edited with
  | none => exact isolates
  | fill _ new ih => exact ih.fill new
  | number _ ih => exact ih.number _
  | edit _ edits new ih => exact ih.run edits new

/-- Placing a document in a closed store isolates what was there before. -/
theorem isolates_placed (closed : σ.store.Closed) {shape : Shape} {journal : Journal}
    (takes : shape.Takes Value.IsPlainScalar σ.store.Holds) :
    Isolates σ.store name (shape.place σ.store).1
      ((Session.withStore { σ with journal } (shape.place σ.store).2).set name
        (shape.place σ.store).1) := by
  have apart : ∀ w ∈ shape.shared, σ.store.Apart σ.store.size w := by
    intro w shared
    obtain ⟨x, -, rfl⟩ := takes.shared w shared
    exact Store.apart_scalar _ _ x
  obtain ⟨guarded, away⟩ := Shape.guarded_place closed.guarded takes.heldBy_of_isPlainScalar apart
  exact ⟨guarded, boundTo_set _ _ _, away⟩

/-- A compiled document is isolated. Whatever is assigned, appended and deleted behind its variable
afterwards, every value from before shows what it showed, and the same resource, schema and
definition compile into a document that shows what this one showed at first. -/
theorem compiled_document_is_isolated {σ σ₁ τ : Session} {name resourceName : Text}
    {schemaName definitionName : Option Text} {r : Resource} {resource v : Value}
    (reachable : σ.Reachable) (bound : σ.boundTo resourceName = .ok resource)
    (lies : r.LiesAt σ.store resource)
    (described : σ.boundOrNull definitionName = .null →
      ∃ t : AcceptedSchema, t.LiesAt σ.store (σ.boundOrNull schemaName))
    (compiled : σ.run (.compile name resourceName schemaName definitionName) = (σ₁, .ok (.value v)))
    (edited : EditedThrough name σ.store.size σ₁ τ) :
    (∀ w, σ.store.Holds w → τ.store.unfold w = σ.store.unfold w) ∧
      ∀ name' resourceName' schemaName' definitionName',
        τ.boundTo resourceName' = .ok resource →
        τ.boundOrNull schemaName' = σ.boundOrNull schemaName →
        τ.boundOrNull definitionName' = σ.boundOrNull definitionName →
        ∃ τ₁ v', τ.run (.compile name' resourceName' schemaName' definitionName') =
            (τ₁, .ok (.value v')) ∧ τ₁.store.unfold v' = σ₁.store.unfold v := by
  have closed := reachable.closed
  obtain ⟨d, visits, takes, compiles⟩ := closed.store.exists_compile_eq lies
    (closed.holds_boundOrNull definitionName) described
  obtain ⟨journal, first⟩ := run_compile bound (compiles σ.store (.refl σ.store))
  rw [first] at compiled
  cases passed : visits.findSome? Visit.fault? with
  | some f =>
    rw [passed] at compiled
    cases compiled
  | none =>
    rw [passed] at compiled
    obtain ⟨rfl, rfl⟩ : _ ∧ _ := ⟨congrArg Prod.fst compiled,
      SessionAnswer.value.inj (Except.ok.inj (congrArg Prod.snd compiled))⟩
    have isolates : Isolates σ.store name (d.shape.place σ.store).1 τ :=
      (isolates_placed closed.store takes).editedThrough edited
    have kept := isolates.guarded.extends'
    refine ⟨fun w held => closed.store.unfold_of_extends kept held, ?_⟩
    intro name' resourceName' schemaName' definitionName' sameResource sameSchema sameDefinition
    have again := compiles τ.store kept
    rw [← sameSchema, ← sameDefinition] at again
    obtain ⟨journal', second⟩ := run_compile sameResource again
    rw [passed] at second
    refine ⟨_, _, second, ?_⟩
    have shown := takes.heldBy_of_isPlainScalar
    calc (d.shape.place τ.store).2.unfold (d.shape.place τ.store).1
        = d.shape.tree σ.store :=
          Shape.unfold_place closed.store kept isolates.guarded.closed shown
      _ = (d.shape.place σ.store).2.unfold (d.shape.place σ.store).1 :=
          (Shape.unfold_place closed.store (.refl σ.store) closed.store shown).symm

namespace SharedSample

/-- A list that is an item of itself. -/
def cyclic : Session :=
  ((start.withStore (start.store.alloc (.list [])).2).run (.bind (text "loop") (.ref 0))).1.run
    (.append (text "loop") [] (.ref 0)) |>.1

/-- The list is the example of two fields, and the fields share what declares them. -/
def fields : Session :=
  let declared := cyclic.withStore (cyclic.store.alloc
    (.map [(.ofText (text "type"), .ofText (text "String")),
      (.ofText (text "example"), .ref 0)])).2
  declared.withStore (declared.store.alloc
    (.map [(.ofText (text "tags"), .ref 1), (.ofText (text "marks"), .ref 1)])).2

def described : Session :=
  let declared := (fields.run (.schema (text "schema") (.ref 2))).1
  declared.withStore (declared.store.alloc
    (.map [(.ofText (text "route"), .ofText (text "/pets")),
      (.ofText (text "name"), .ofText (text "pet")),
      (.ofText (text "model_name"), .ofText (text "Pet"))])).2

def session : Session := (described.run (.resource (text "resource") (.ref 9))).1

def compile : SessionStep :=
  .compile (text "document") (text "resource") (some (text "schema")) none

/-- Changes the example of a field in the document. -/
def change : SessionStep :=
  .append (text "document")
    [.item (.ofText (text "definitions")), .item (.ofText (text "Pet")),
      .item (.ofText (text "properties")), .item (.ofText (text "tags")),
      .item (.ofText (text "example"))] (.ofText (text "more"))

def compiled : Session := (session.run compile).1

def changed : Session := (compiled.run change).1

theorem isData_cyclic : cyclic.store.IsData := by
  intro v c cell
  match v with
  | .scalar _ => cases cell
  | .ref 0 =>
    cases cell
    rfl
  | .ref (_ + 1) => cases cell

theorem declared_described : described.Declared := by
  have reachable : cyclic.Reachable :=
    .step (.step (.fill .start nofun) (Store.holds_of_places (by decide)))
      (Store.holds_of_places (by decide))
  have filled : fields.Declared :=
    .fill (.fill (.data reachable isData_cyclic) (Store.holds_of_places (by decide)) rfl)
      (Store.holds_of_places (by decide)) rfl
  have declared : (fields.run (.schema (text "schema") (.ref 2))).1.Declared :=
    filled.step (Store.holds_of_places (by decide)) trivial
  exact declared.fill (Store.holds_of_places (by decide)) rfl

theorem declared_session : session.Declared :=
  declared_described.step (Store.holds_of_places (by decide +kernel)) trivial

theorem exists_resource : ∃ r : Resource, r.LiesAt session.store (.ref 11) := by
  have made : described.run (.resource (text "resource") (.ref 9)) =
      (session, .ok (.value (.ref 11))) := by
    have answer : (described.run (.resource (text "resource") (.ref 9))).2 =
        .ok (.value (.ref 11)) := by decide +kernel
    rw [session, ← answer]
  exact resource_liesAt made

theorem run_compile_eq : session.run compile = (compiled, .ok (.value (.ref 22))) := by
  have answer : (session.run compile).2 = .ok (.value (.ref 22)) := by decide +kernel
  rw [compiled, ← answer]

theorem run_change_eq : compiled.run change = (changed, .ok .done) := by
  have answer : (compiled.run change).2 = .ok .done := by decide +kernel
  rw [changed, ← answer]

theorem editedThrough : EditedThrough (text "document") session.store.size compiled changed := by
  have scalars : ∀ w ∈ change.values, w.place? = none := by decide
  exact .edit .none rfl fun w given p points => nomatch (scalars w given).symm.trans points

end SharedSample

/-- The document keeps the sample as it is, and is compiled again as it was. -/
theorem shared_sample_is_isolated :
    SharedSample.session.run SharedSample.compile =
        (SharedSample.compiled, .ok (.value (.ref 22))) ∧
      SharedSample.compiled.run SharedSample.change = (SharedSample.changed, .ok .done) ∧
      (∀ w, SharedSample.session.store.Holds w →
        SharedSample.changed.store.unfold w = SharedSample.session.store.unfold w) ∧
      ∃ τ₁ v', SharedSample.changed.run SharedSample.compile = (τ₁, .ok (.value v')) ∧
        τ₁.store.unfold v' = SharedSample.compiled.store.unfold (.ref 22) := by
  have declared := SharedSample.declared_session
  have schema : SharedSample.session.store.deref?
      (SharedSample.session.boundOrNull (some (text "schema"))) = some (.schema (.ref 7)) := by
    decide +kernel
  have bound : SharedSample.session.boundTo (text "resource") = .ok (.ref 11) := by
    decide +kernel
  obtain ⟨r, lies⟩ := SharedSample.exists_resource
  obtain ⟨kept, again⟩ := compiled_document_is_isolated declared.reachable bound lies
    (fun _ => declared.accepts.schema schema) SharedSample.run_compile_eq
    SharedSample.editedThrough
  refine ⟨SharedSample.run_compile_eq, SharedSample.run_change_eq, kept,
    again (text "document") (text "resource") (some (text "schema")) none ?_ ?_ ?_⟩
  · decide +kernel
  · decide +kernel
  · simp only [boundOrNull_none]

end Session

end SwaggerDoc
