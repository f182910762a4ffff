import SwaggerDoc.Proofs.Session.Reachable

/-!
Sessions that only declare.

With data of any kind to begin with, a session declares schemas and resources, fills in more data
and looks. Nothing that was declared is altered, so all of it lies in the store as validation
leaves it.
-/

namespace SwaggerDoc

theorem Resource.liesAt_place (r : Resource) (s : Store) : r.LiesAt (r.place s).2 (r.place s).1 := by
  have filled := Store.extends_alloc
    (s.alloc (.list (r.methods.map fun m => .scalar (.method m)))).2
  exact ⟨_, Store.deref?_alloc _ _, (filled _).deref?_of_some (Store.deref?_alloc _ _)⟩

namespace Store

variable {s : Store}

/-- The store holds no declarations, schemas or resources. -/
def IsData (s : Store) : Prop :=
  ∀ {v c}, s.deref? v = some c → c.attributes? = none

theorem IsData.accepts (isData : s.IsData) : s.Accepts where
  field cell := nomatch isData cell
  elements cell := nomatch isData cell
  schema cell := nomatch isData cell

theorem Accepts.number (accepts : s.Accepts) (closed : s.Closed) (f : Binary64) :
    (s.number f).2.Accepts := by
  have extends' : s.Extends (s.number f).2 := by
    cases f <;> exact ⟨Nat.le_refl _, fun _ _ => rfl, fun _ _ => rfl⟩
  have same (v : Value) : (s.number f).2.deref? v = s.deref? v := by
    cases f <;> cases v <;> rfl
  constructor
  · intro v f cell
    rw [same] at cell
    obtain ⟨tag, o, type, modifiers⟩ := accepts.field cell
    have held := closed.holds_attribute cell f.tag (by simp [FieldCell.attributes])
    exact ⟨tag, o, type.mono closed extends' held, modifiers.mono extends'⟩
  · intro v f cell
    rw [same] at cell
    have held := closed.holds_attribute cell f.tag (by simp [FieldCell.attributes])
    exact (accepts.elements cell).mono held extends'
  · intro v fields cell
    rw [same] at cell
    obtain ⟨t, lies⟩ := accepts.schema cell
    exact ⟨t, lies.mono closed extends'⟩

theorem Accepts.place_resource (accepts : s.Accepts) (closed : s.Closed) (r : Resource) :
    (r.place s).2.Accepts := by
  have listed := accepts.alloc_data (c := .list (r.methods.map fun m => .scalar (.method m)))
    closed rfl
  refine listed.alloc (closed.alloc (holds_methods s r.methods)) ?_ ?_ ?_
  · intro f same
    cases same
  · intro f same
    cases same
  · intro fields same
    cases same

end Store

/-- The step binds a value, declares a schema or a resource, or only looks. -/
def SessionStep.Declares : SessionStep → Prop
  | .bind _ _ | .schema _ _ | .resource _ _ => True
  | .look _ _ | .required _ | .render _ _ | .equal _ _ => True
  | _ => False

namespace Session

/-- Sessions that have declared, but altered nothing that is declared. -/
inductive Declared : Session → Prop
  | data {σ : Session} : Reachable σ → σ.store.IsData → Declared σ
  | fill {σ : Session} {c : Cell} :
    Declared σ → (∀ v ∈ c.parts, σ.store.Holds v) → c.attributes? = none →
    Declared (σ.withStore (σ.store.alloc c).2)
  | number {σ : Session} {f : Binary64} : Declared σ → Declared (σ.withStore (σ.store.number f).2)
  | step {σ : Session} {step : SessionStep} :
    Declared σ → (∀ v ∈ step.values, σ.store.Holds v) → step.Declares → Declared (σ.run step).1

variable {σ τ : Session} {name : Text} {v : Value}

theorem Declared.reachable (declared : σ.Declared) : σ.Reachable := by
  induction declared with
  | data reachable _ => exact reachable
  | fill _ held _ ih => exact .fill ih held
  | number _ ih => exact .number ih
  | step _ held _ ih => exact .step ih held

theorem accepts_produce (accepts : σ.store.Accepts) {r : Except Fault (Value × Store)}
    (done : ∀ v t, r = .ok (v, t) → t.Accepts) : (σ.produce name r).1.store.Accepts := by
  cases r with
  | error fault => exact accepts
  | ok made => exact done made.1 made.2 rfl

theorem Closed.accepts_run (closed : σ.Closed) (accepts : σ.store.Accepts) {step : SessionStep}
    (declares : step.Declares) : (σ.run step).1.store.Accepts := by
  cases step with
  | bind other w =>
    refine accepts_produce accepts fun v t made => ?_
    obtain ⟨rfl, rfl⟩ := Prod.mk.inj (Except.ok.inj made)
    exact accepts
  | schema other fields =>
    refine accepts_produce accepts fun v t made => ?_
    obtain ⟨draft, checked, made⟩ := Except.exists_ok_of_bind made
    obtain ⟨rfl, rfl⟩ := Prod.mk.inj (Except.ok.inj made)
    exact (SchemaDraft.accepted_of_check closed.store accepts checked).2
  | resource other attributes =>
    refine accepts_produce accepts fun v t made => ?_
    obtain ⟨given, -, made⟩ := Except.exists_ok_of_bind made
    obtain ⟨r, -, made⟩ := Except.exists_ok_of_bind made
    obtain ⟨rfl, rfl⟩ := Prod.mk.inj (Except.ok.inj made)
    exact accepts.place_resource closed.store r
  | look | required | render | equal => exact accepts
  | _ => cases declares

/-- All that is declared is accepted. -/
theorem Declared.accepts (declared : σ.Declared) : σ.store.Accepts := by
  induction declared with
  | data _ isData => exact isData.accepts
  | fill before _ data ih => exact ih.alloc_data before.reachable.closed.store data
  | number before ih => exact ih.number before.reachable.closed.store _
  | step before _ declares ih => exact before.reachable.closed.accepts_run ih declares

theorem exists_of_produce {r : Except Fault (Value × Store)}
    (made : σ.produce name r = (τ, .ok (.value v))) :
    ∃ t, r = .ok (v, t) ∧ τ = (σ.withStore t).set name v := by
  cases r with
  | error fault => cases made
  | ok found =>
    cases made
    exact ⟨found.2, rfl, rfl⟩

/-- A schema that a session declares lies in the store as validation leaves it. -/
theorem Declared.schema_liesAt (declared : σ.Declared) {fields : Value}
    (made : σ.run (.schema name fields) = (τ, .ok (.value v))) :
    ∃ t : AcceptedSchema, t.LiesAt τ.store v := by
  obtain ⟨u, placed, rfl⟩ := exists_of_produce made
  obtain ⟨draft, checked, placed⟩ := Except.exists_ok_of_bind placed
  obtain ⟨rfl, rfl⟩ := Prod.mk.inj (Except.ok.inj placed)
  have closed := declared.reachable.closed.store
  exact (SchemaDraft.accepted_of_check closed declared.accepts checked).1

/-- A resource that a session declares lies in the store as validation leaves it. -/
theorem resource_liesAt {attributes : Value}
    (made : σ.run (.resource name attributes) = (τ, .ok (.value v))) :
    ∃ r : Resource, r.LiesAt τ.store v := by
  obtain ⟨u, placed, rfl⟩ := exists_of_produce made
  obtain ⟨given, -, placed⟩ := Except.exists_ok_of_bind placed
  obtain ⟨r, -, placed⟩ := Except.exists_ok_of_bind placed
  obtain ⟨rfl, rfl⟩ := Prod.mk.inj (Except.ok.inj placed)
  exact ⟨r, r.liesAt_place σ.store⟩

end Session

end SwaggerDoc
