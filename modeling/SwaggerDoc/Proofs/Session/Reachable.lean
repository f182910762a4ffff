import SwaggerDoc.Proofs.Document.Values
import SwaggerDoc.Proofs.Schema.Outlined
import SwaggerDoc.Proofs.Schema.Placed
import SwaggerDoc.Proofs.Session.Edited
import SwaggerDoc.Session.Basic

/-!
Reachable sessions.

A session goes on by filling places with what it has and by carrying out steps with values that it
has. Whatever is done, and however models are altered on the way, a reachable session is closed:
every variable is bound to a value that leads somewhere, and so does everything in the store.
-/

namespace SwaggerDoc

namespace Session

/-- Everything that is bound or lies in the store leads somewhere. -/
structure Closed (σ : Session) : Prop where
  store : σ.store.Closed
  bound : ∀ e ∈ σ.bindings, σ.store.Holds e.2

/-- Sessions that can be come to. -/
inductive Reachable : Session → Prop
  | start : Reachable start
  | fill {σ : Session} {c : Cell} :
    Reachable σ → (∀ v ∈ c.parts, σ.store.Holds v) → Reachable (σ.withStore (σ.store.alloc c).2)
  | number {σ : Session} {f : Binary64} :
    Reachable σ → Reachable (σ.withStore (σ.store.number f).2)
  | step {σ : Session} {step : SessionStep} :
    Reachable σ → (∀ v ∈ step.values, σ.store.Holds v) → Reachable (σ.run step).1

variable {σ : Session} {name : Text} {v : Value}

theorem Closed.holds_boundOrNull (closed : σ.Closed) (name : Option Text) :
    σ.store.Holds (σ.boundOrNull name) := by
  unfold boundOrNull
  cases found : name.bind fun n => σ.bindings.lookup n with
  | none => exact Store.holds_scalar _ _
  | some v =>
    obtain ⟨n, -, found⟩ := Option.bind_eq_some_iff.mp found
    exact closed.bound _ (Store.mem_of_lookup found)

/-! ## Going on with another store -/

theorem Closed.withStore (closed : σ.Closed) {t : Store} (store : t.Closed)
    (size_le : σ.store.size ≤ t.size) : (σ.withStore t).Closed where
  store := store
  bound e member := (closed.bound e member).of_le size_le

theorem Closed.set (closed : σ.Closed) (held : σ.store.Holds v) : (σ.set name v).Closed where
  store := closed.store
  bound e member := by
    rcases List.mem_cons.mp member with rfl | member
    · exact held
    · exact closed.bound e (List.mem_filter.mp member).1

theorem Closed.produce (closed : σ.Closed) {r : Except Fault (Value × Store)}
    (done : ∀ v t, r = .ok (v, t) → t.Closed ∧ t.Holds v ∧ σ.store.size ≤ t.size) :
    (σ.produce name r).1.Closed := by
  unfold Session.produce
  split
  · next v t =>
    obtain ⟨store, held, size_le⟩ := done v t rfl
    exact (closed.withStore store size_le).set held
  · exact closed

theorem Closed.report (closed : σ.Closed) {r : Report (Option Shape)}
    (done : ∀ j shape, (r j).1 = .ok (some shape) → shape.HeldBy σ.store) :
    (σ.report name r).1.Closed := by
  have noted : Session.Closed { σ with journal := (r σ.journal).2 } :=
    ⟨closed.store, closed.bound⟩
  refine noted.produce fun v t made => ?_
  obtain ⟨found, result, placed⟩ := Except.exists_ok_of_map made
  cases found with
  | none =>
    obtain ⟨rfl, rfl⟩ := Prod.mk.inj placed
    exact ⟨closed.store, Store.holds_scalar _ _, Nat.le_refl _⟩
  | some shape =>
    obtain ⟨rfl, rfl⟩ := Prod.mk.inj placed
    obtain ⟨store, held⟩ := Shape.closed_place closed.store (done _ shape result)
    exact ⟨store, held, (Shape.extends_place shape σ.store).size_le⟩

end Session

/-! ## What the steps produce -/

namespace Store

variable {s : Store}

theorem Closed.giveAll (closed : s.Closed) {p : Place} (filled : p < s.size)
    {attributes : List (Text × Value)} (held : ∀ e ∈ attributes, s.Holds e.2) :
    (s.giveAll p attributes).Closed ∧ (s.giveAll p attributes).size = s.size := by
  induction attributes generalizing s with
  | nil => exact ⟨closed, rfl⟩
  | cons entry rest ih =>
    have first := closed.give entry.1 filled (held entry List.mem_cons_self)
    have same : (s.give p entry.1 entry.2).size = s.size := rfl
    have later : ∀ e ∈ rest, (s.give p entry.1 entry.2).Holds e.2 := by
      intro e member
      exact (held e (List.mem_cons_of_mem _ member)).of_le (Nat.le_of_eq same.symm)
    exact ih first filled later

/-- Filling a place with a model and giving it attributes of what is held keeps a store closed. -/
theorem Closed.alloc_giveAll (closed : s.Closed) {c : Cell} (parts : ∀ v ∈ c.parts, s.Holds v)
    {attributes : List (Text × Value)} (held : ∀ e ∈ attributes, s.Holds e.2) :
    ((s.alloc c).2.giveAll s.size attributes).Closed ∧
      ((s.alloc c).2.giveAll s.size attributes).Holds (s.alloc c).1 ∧
        s.size ≤ ((s.alloc c).2.giveAll s.size attributes).size := by
  have larger := s.extends_alloc c
  have filled : s.size < (s.alloc c).2.size := by simp
  obtain ⟨closed', size⟩ :=
    (closed.alloc parts).giveAll filled fun e member => (held e member).mono larger
  exact ⟨closed', (s.holds_alloc c).of_le (Nat.le_of_eq size.symm), size ▸ larger.size_le⟩

theorem holds_methods (s : Store) (methods : List Method) :
    ∀ v ∈ (Cell.list (methods.map fun m => .scalar (.method m))).parts, s.Holds v := by
  intro v part
  obtain ⟨m, -, rfl⟩ := List.mem_map.mp part
  exact s.holds_scalar _

theorem Closed.place_resource (closed : s.Closed) (r : Resource) :
    (r.place s).2.Closed ∧ (r.place s).2.Holds (r.place s).1 ∧ s.size ≤ (r.place s).2.size := by
  have closed' := closed.alloc (s.holds_methods r.methods)
  refine ⟨closed'.alloc fun w part => ?_, holds_alloc _ _,
    ((s.extends_alloc _).trans (extends_alloc _ _)).size_le⟩
  simp only [Cell.parts, ResourceCell.attributes, List.mem_cons, List.not_mem_nil, or_false] at part
  rcases part with rfl | rfl | rfl | rfl
  · exact holds_scalar _ _
  · exact holds_scalar _ _
  · exact holds_scalar _ _
  · exact s.holds_alloc _

theorem Closed.copyWithMethods (closed : s.Closed) {source v : Value} {methods : Text} {t : Store}
    (done : Session.copyWithMethods s source methods = .ok (v, t)) :
    t.Closed ∧ t.Holds v ∧ s.size ≤ t.size := by
  unfold Session.copyWithMethods at done
  split at done
  · cases done
  · next p =>
    split at done
    · cases done
    · next model found =>
      have cell : s.cell? p = some model := (Option.filter_eq_some_iff.mp found).1
      obtain ⟨named, -, done⟩ := Except.exists_ok_of_bind done
      have extends₁ := s.extends_alloc (.list (named.map fun m => .scalar (.method m)))
      have closed₁ := closed.alloc (s.holds_methods named)
      have list := s.holds_alloc (.list (named.map fun m => .scalar (.method m)))
      generalize s.alloc (.list (named.map fun m => .scalar (.method m))) = filled at *
      obtain ⟨methods, u⟩ := filled
      have parts : ∀ x ∈ model.parts, u.Holds x :=
        fun x part => (closed.holds_part cell x part).mono extends₁
      have given : ∀ e ∈ u.givenTo p, u.Holds e.2 :=
        fun e member => (closed₁.holds_given _ (mem_givenTo.mp member)).2
      cases model with
      | resource r =>
        obtain ⟨rfl, rfl⟩ := Prod.mk.inj (Except.ok.inj done)
        simp only [Cell.parts, ResourceCell.attributes, List.forall_mem_cons] at parts
        have parts' : ∀ x ∈ (Cell.resource { r with methods := methods }).parts, u.Holds x := by
          simp only [Cell.parts, ResourceCell.attributes, List.forall_mem_cons]
          exact ⟨parts.1, parts.2.1, parts.2.2.1, list, List.forall_mem_nil _⟩
        rw [List.append_nil]
        obtain ⟨closed₂, held, size_le⟩ := closed₁.alloc_giveAll parts' given
        exact ⟨closed₂, held, Nat.le_trans extends₁.size_le size_le⟩
      | _ =>
        obtain ⟨rfl, rfl⟩ := Prod.mk.inj (Except.ok.inj done)
        have given' : ∀ e ∈ u.givenTo p ++ [(text "methods", methods)], u.Holds e.2 := by
          intro e member
          rcases List.mem_append.mp member with before | new
          · exact given e before
          · rw [List.mem_singleton.mp new]
            exact list
        obtain ⟨closed₂, held, size_le⟩ := closed₁.alloc_giveAll parts given'
        exact ⟨closed₂, held, Nat.le_trans extends₁.size_le size_le⟩

theorem Closed.holds_writableProperties (closed : s.Closed) {definition schema : Value}
    {properties : List Value} (done : s.writableProperties definition schema = .ok properties) :
    ∀ v ∈ properties, s.Holds v := by
  -- From whatever properties there are, only some of them are kept.
  have kept_held (all : List (Value × Value)) (held : ∀ e ∈ all, s.Holds e.2)
      {test : Value × Value → Except Fault Bool} {kept : List (Value × Value)}
      (filtered : all.filterM test = .ok kept) : ∀ v ∈ kept.map Prod.snd, s.Holds v := by
    intro v member
    obtain ⟨e, listed, rfl⟩ := List.mem_map.mp member
    exact held e (Except.mem_of_filterM filtered e listed)
  unfold writableProperties at done
  split at done
  · next entries cell =>
    dsimp only at done
    split at done
    · obtain rfl := Except.ok.inj done
      exact nofun
    · split at done
      · next all cell' =>
        have held := Draft.allHeld_of_deref? closed cell'
        obtain ⟨all', same, done⟩ := Except.exists_ok_of_bind done
        obtain rfl := Except.ok.inj same
        split at done
        · obtain rfl := Except.ok.inj done
          exact nofun
        · split at done
          · split at done
            · obtain ⟨kept, filtered, done⟩ := Except.exists_ok_of_bind done
              obtain rfl := Except.ok.inj done
              exact kept_held all held filtered
            · cases done
          · cases done
      · cases done
  · cases done

theorem Closed.heldBy_definitionOf (closed : s.Closed) {schema : Value} {name : Text} {j : Journal}
    {shape : Shape} (done : (s.definitionOf schema name j).1 = .ok shape) : shape.HeldBy s := by
  obtain ⟨d, j', defined, done⟩ := Report.exists_of_bind done
  obtain rfl := Except.ok.inj done
  have uses : d.Uses s.Holds s.Holds :=
    Outline.uses_define (Outline.isHeld_read closed schema) defined
  exact Definition.takes_shape (fun _ => s.holds_scalar _) uses

theorem Closed.heldBy_propertyOf (closed : s.Closed) {options : Value} (held : s.Holds options)
    {name : Text} {j : Journal} {shape : Shape}
    (done : (s.propertyOf options name j).1 = .ok (some shape)) : shape.HeldBy s := by
  have read := Entry.isHeld_ofOptions (Outline.isHeld_read closed) closed held
  have mapped {tag : Tag} {target : Except Fault Text} (uses : tag.IsHeld s)
      (done : ((do return (← tag.kind (.ofText name) target).map fun kind => .record kind.entries :
        Report (Option Shape)) j).1 = .ok (some shape)) : shape.HeldBy s := by
    obtain ⟨found, j', maps, done⟩ := Report.exists_of_bind done
    obtain ⟨kind, rfl, rfl⟩ := Option.map_eq_some_iff.mp (Except.ok.inj done)
    have inside : kind.Uses s.Holds s.Holds := Tag.uses_kind uses maps
    exact Shape.takes_record (fun _ => s.holds_scalar _)
      (Kind.takes_entries (fun _ => s.holds_scalar _) inside)
  unfold propertyOf at done
  have same : s.outlineOf = Outline.read s := rfl
  rw [same] at done
  cases entry : Entry.ofOptions s (Outline.read s) options with
  | declared tag m =>
    rw [entry] at done read
    exact mapped read.1 done
  | bare tag target =>
    rw [entry] at done read
    exact mapped read done
  | broken fault =>
    rw [entry] at done
    cases done

theorem Closed.heldBy_modelDefinition (closed : s.Closed) {model schema definition : Value}
    (given : s.Holds definition) {j : Journal} {d : ModelDefinition}
    (done : (s.modelDefinition model schema definition j).1 = .ok d) : d.shape.HeldBy s := by
  unfold modelDefinition at done
  split at done
  · obtain rfl := Except.ok.inj done
    exact Shape.takes_copy given
  · obtain ⟨made, j', defined, done⟩ := Report.exists_of_bind done
    obtain rfl := Except.ok.inj done
    have uses : made.Uses s.Holds s.Holds :=
      Outline.uses_define (Outline.isHeld_read closed schema) defined
    exact Definition.takes_shape (fun _ => s.holds_scalar _) uses

theorem exists_of_documentOf {r : ResourceCell} {definition : ModelDefinition} {d : Document}
    (done : s.documentOf r definition = .ok d) : ∃ enabled routeText nameText modelText,
      d = .of ⟨r.route, routeText, r.name, nameText, r.model, modelText⟩ enabled definition := by
  unfold documentOf at done
  obtain ⟨modelText, -, done⟩ := Except.exists_ok_of_bind done
  dsimp only at done
  split at done
  · cases done
  · obtain ⟨enabled, -, done⟩ := Except.exists_ok_of_bind done
    split at done
    · cases done
    · obtain ⟨routeText, -, done⟩ := Except.exists_ok_of_bind done
      obtain ⟨nameText, -, done⟩ := Except.exists_ok_of_bind done
      exact ⟨enabled, routeText, nameText, modelText, (Except.ok.inj done).symm⟩

theorem Closed.heldBy_compile (closed : s.Closed) {resource schema definition : Value}
    (given : s.Holds definition) {j : Journal} {d : Document}
    (done : (s.compile resource schema definition j).1 = .ok d) : d.shape.HeldBy s := by
  unfold compile at done
  split at done
  · obtain ⟨name, j', -, done⟩ := Report.exists_of_bind done
    cases done
  · cases cell : s.deref? resource with
    | none =>
      rw [cell] at done
      cases done
    | some c =>
      rw [cell] at done
      cases c with
      | resource r =>
        obtain ⟨model, j', chosen, done⟩ := Report.exists_of_bind done
        have held := closed.holds_parts_of_deref? cell
        simp only [Cell.parts, ResourceCell.attributes, List.mem_cons, List.not_mem_nil, or_false,
          forall_eq_or_imp, forall_eq] at held
        obtain ⟨route, name, modelHeld, -⟩ := held
        have defined := closed.heldBy_modelDefinition given chosen
        obtain ⟨enabled, routeText, nameText, modelText, rfl⟩ := exists_of_documentOf done
        exact Document.takes_shape (fun x _ => s.holds_scalar x) route name modelHeld defined
      | _ => cases done

end Store

/-! ## Every step keeps a session closed -/

namespace Session

variable {σ : Session}

/-- Changing what lies behind a variable keeps a session closed. -/
theorem Closed.run_of_edits (closed : σ.Closed) {name : Text} {step : SessionStep}
    (edits : step.Edits name) (held : ∀ v ∈ step.values, σ.store.Holds v) :
    (σ.run step).1.Closed := by
  rcases Session.run_of_edits edits with same | ⟨_, _, p, added, t, -, -, edited, given, goes⟩
  · rw [same]
    exact closed
  · rw [goes]
    have store := closed.store.editedAt edited fun v new => held v (given v new)
    exact closed.withStore store (Nat.le_of_eq edited.size_eq.symm)

theorem Closed.run (closed : σ.Closed) {step : SessionStep}
    (held : ∀ v ∈ step.values, σ.store.Holds v) : (σ.run step).1.Closed := by
  cases step with
  | bind name v =>
    refine closed.produce fun w t made => ?_
    obtain ⟨rfl, rfl⟩ := Prod.mk.inj (Except.ok.inj made)
    exact ⟨closed.store, held _ (List.mem_singleton_self _), Nat.le_refl _⟩
  | schema name fields =>
    refine closed.produce fun w t made => ?_
    obtain ⟨draft, checked, made⟩ := Except.exists_ok_of_bind made
    obtain ⟨rfl, rfl⟩ := Prod.mk.inj (Except.ok.inj made)
    obtain ⟨store, held⟩ :=
      SchemaDraft.closed_place closed.store (SchemaDraft.allFit_of_check closed.store checked)
    exact ⟨store, held, (SchemaDraft.extends_place draft σ.store).size_le⟩
  | resource name attributes =>
    refine closed.produce fun w t made => ?_
    obtain ⟨given, -, made⟩ := Except.exists_ok_of_bind made
    obtain ⟨r, -, made⟩ := Except.exists_ok_of_bind made
    obtain ⟨rfl, rfl⟩ := Prod.mk.inj (Except.ok.inj made)
    exact closed.store.place_resource r
  | withMethods name source methods =>
    refine closed.produce fun w t made => ?_
    obtain ⟨v, -, made⟩ := Except.exists_ok_of_bind made
    exact closed.store.copyWithMethods made
  | assign name _ _ | append name _ _ | delete name _ =>
    exact Closed.run_of_edits closed (rfl : _ = name) held
  | property name options definition =>
    refine closed.report fun j shape done => ?_
    exact closed.store.heldBy_propertyOf (held options (List.mem_singleton_self options)) done
  | define name schema definition =>
    refine closed.report fun j shape done => ?_
    obtain ⟨v, j', -, done⟩ := Report.exists_of_bind done
    obtain ⟨made, j'', defined, done⟩ := Report.exists_of_bind done
    obtain rfl := Option.some.inj (Except.ok.inj done)
    exact closed.store.heldBy_definitionOf defined
  | compile name resource schema definition =>
    refine closed.report fun j shape done => ?_
    obtain ⟨v, j', -, done⟩ := Report.exists_of_bind done
    obtain ⟨document, j'', compiled, done⟩ := Report.exists_of_bind done
    obtain rfl := Option.some.inj (Except.ok.inj done)
    exact closed.store.heldBy_compile (closed.holds_boundOrNull definition) compiled
  | writable name definition schema =>
    refine closed.produce fun w t made => ?_
    obtain ⟨d, -, made⟩ := Except.exists_ok_of_bind made
    obtain ⟨v, -, made⟩ := Except.exists_ok_of_bind made
    obtain ⟨properties, kept, made⟩ := Except.exists_ok_of_bind made
    obtain ⟨rfl, rfl⟩ := Prod.mk.inj (Except.ok.inj made)
    have inside := closed.store.holds_writableProperties kept
    exact ⟨closed.store.alloc inside, Store.holds_alloc _ _, (Store.extends_alloc _ _).size_le⟩
  | _ => exact closed

/-- A reachable session is closed. -/
theorem Reachable.closed (reachable : σ.Reachable) : σ.Closed := by
  induction reachable with
  | start => exact ⟨Store.closed_empty, nofun⟩
  | fill _ parts ih => exact ih.withStore (ih.store.alloc parts) (Store.extends_alloc _ _).size_le
  | @number σ f _ ih => exact ih.withStore (ih.store.number f) (by cases f <;> exact Nat.le_refl _)
  | step _ held ih => exact ih.run held

end Session

end SwaggerDoc
