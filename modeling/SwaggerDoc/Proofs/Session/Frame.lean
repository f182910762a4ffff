import SwaggerDoc.Proofs.Document.Noted
import SwaggerDoc.Proofs.Session.Isolation

/-!
Steps that only ask leave their inputs alone.

Mapping, normalizing, compiling, listing fields, rendering, comparing and copying a resource with
other methods fill new places and note fallbacks, and that is all they do. A step either binds what
it makes or fails, so its outcome is described once for each way in which a step ends
(`Session.Asked.produce`, `.observe`, `.report`), and the steps are cases of these.
-/

namespace SwaggerDoc

namespace SessionStep

/-- The steps that make something of what is there: all but those that bind or build what they are
given, look at a part, or change one. -/
def Asks : SessionStep → Prop
  | .property .. | .define .. | .compile .. | .required .. | .writable .. | .render .. | .equal ..
  | .withMethods .. => True
  | .bind .. | .schema .. | .resource .. | .assign .. | .append .. | .delete .. | .look .. => False

/-- The variable that the result of a step is bound to, if it is bound. -/
def target? : SessionStep → Option Text
  | .bind name _ | .schema name _ | .resource name _ | .withMethods name .. | .property name ..
  | .define name .. | .compile name .. | .writable name .. => some name
  | .assign .. | .append .. | .delete .. | .look .. | .required .. | .render .. | .equal .. => none

end SessionStep

namespace Session

variable {σ : Session} {name : Text}

/-- The session goes on with all that it had: everything lies where it lay, the journal has what it
had with fallbacks behind it, and no variable but the target is bound to anything else. The target
is bound to what is answered, and if nothing is, not even the store is another. -/
structure Asked (σ : Session) (target? : Option Text)
    (outcome : Session × Except Fault SessionAnswer) : Prop where
  extends' : σ.store.Extends outcome.1.store
  journal : ∃ noted, outcome.1.journal = σ.journal.noteAll noted
  others : ∀ n, target? ≠ some n → outcome.1.bindings.lookup n = σ.bindings.lookup n
  answered : ∀ answer, outcome.2 = .ok answer → ∀ n, target? = some n →
    ∃ v, answer = .value v ∧ outcome.1.boundTo n = .ok v
  failed : ∀ fault, outcome.2 = .error fault →
    outcome.1.store = σ.store ∧ outcome.1.bindings = σ.bindings

theorem lookup_bindings_set (σ : Session) (v : Value) {n : Text} (other : n ≠ name) :
    (σ.set name v).bindings.lookup n = σ.bindings.lookup n := by
  have skipped : (σ.set name v).bindings.lookup n =
      (σ.bindings.filter (·.1 != name)).lookup n := by
    rw [set, List.lookup_cons, beq_eq_false_iff_ne.mpr other]
  rw [skipped]
  induction σ.bindings with
  | nil => rfl
  | cons e rest ih =>
    by_cases same : e.1 = name
    · have different : (n == e.1) = false := beq_eq_false_iff_ne.mpr (same ▸ other)
      rw [List.filter_cons_of_neg (by simp [same]), ih, List.lookup_cons, different]
    · rw [List.filter_cons_of_pos (by simp [same]), List.lookup_cons, List.lookup_cons, ih]

theorem Asked.observe (σ : Session) (r : Except Fault SessionAnswer) :
    σ.Asked none (σ.observe r) where
  extends' := .refl _
  journal := ⟨[], σ.journal.noteAll_nil.symm⟩
  others _ _ := rfl
  answered _ _ _ none := nomatch none
  failed _ _ := ⟨rfl, rfl⟩

theorem Asked.produce (σ : Session) (name : Text) {r : Except Fault (Value × Store)}
    (grows : ∀ v t, r = .ok (v, t) → σ.store.Extends t) :
    σ.Asked (some name) (σ.produce name r) := by
  unfold Session.produce
  split
  · next v t =>
    refine ⟨grows v t rfl, ⟨[], σ.journal.noteAll_nil.symm⟩, ?_, ?_, nofun⟩
    · intro n other
      exact lookup_bindings_set (σ.withStore t) v fun same => other (congrArg some same.symm)
    · rintro answer answers n target
      obtain rfl := Option.some.inj target
      obtain rfl := Except.ok.inj answers
      exact ⟨v, rfl, boundTo_set _ name v⟩
  · exact ⟨.refl _, ⟨[], σ.journal.noteAll_nil.symm⟩, fun _ _ => rfl, nofun,
      fun _ _ => ⟨rfl, rfl⟩⟩

theorem Asked.report (σ : Session) (name : Text) {r : Report (Option Shape)} (notes : r.OnlyNotes) :
    σ.Asked (some name) (σ.report name r) := by
  have produced : Session.Asked { σ with journal := (r σ.journal).2 } (some name)
      (σ.report name r) := by
    refine .produce _ name fun v t made => ?_
    obtain ⟨found, -, placed⟩ := Except.exists_ok_of_map made
    cases found with
    | none =>
      obtain ⟨-, rfl⟩ := Prod.mk.inj placed
      exact .refl _
    | some shape =>
      obtain ⟨-, rfl⟩ := Prod.mk.inj placed
      exact Shape.extends_place shape σ.store
  obtain ⟨noted, before⟩ := notes σ.journal
  obtain ⟨noted', behind⟩ := produced.journal
  refine ⟨produced.extends', ⟨noted ++ noted', ?_⟩, produced.others, produced.answered,
    produced.failed⟩
  rw [behind, ← Journal.noteAll_noteAll, ← before]

end Session

/-! ## A copy with other methods -/

namespace Store

variable {s t : Store} {p : Place}

theorem extends_give (extends' : s.Extends t) (new : s.size ≤ p) (name : Text) (v : Value) :
    s.Extends (t.give p name v) where
  size_le := extends'.size_le
  cell?_eq := extends'.cell?_eq
  givenTo_eq q filled := by
    have different : q ≠ p := Nat.ne_of_lt (Nat.lt_of_lt_of_le filled new)
    rw [givenTo_give_of_ne different, extends'.givenTo_eq q filled]

theorem extends_giveAll (extends' : s.Extends t) (new : s.size ≤ p)
    (attributes : List (Text × Value)) : s.Extends (t.giveAll p attributes) := by
  induction attributes generalizing t with
  | nil => exact extends'
  | cons first rest ih => exact ih (extends_give extends' new first.1 first.2)

theorem extends_copyWithMethods {source v : Value} {methods : Text}
    (done : Session.copyWithMethods s source methods = .ok (v, t)) : s.Extends t := by
  unfold Session.copyWithMethods at done
  split at done
  · cases done
  · split at done
    · cases done
    · obtain ⟨named, -, done⟩ := Except.exists_ok_of_bind done
      have list := s.extends_alloc (.list (named.map fun m => .scalar (.method m)))
      generalize s.alloc (.list (named.map fun m => .scalar (.method m))) = filled at done list
      obtain ⟨-, rfl⟩ := Prod.mk.inj (Except.ok.inj done)
      exact extends_giveAll (list.trans (extends_alloc _ _)) list.size_le _

end Store

/-! ## The steps -/

namespace Session

variable {σ : Session}

theorem asked_run (σ : Session) {step : SessionStep} (asks : step.Asks) :
    σ.Asked step.target? (σ.run step) := by
  cases step with
  | property name options definition =>
    exact .report σ name (σ.store.onlyNotes_propertyOf options definition)
  | define name schema definition =>
    refine .report σ name ((Report.onlyNotes_ofExcept _).bind fun v => ?_)
    exact (σ.store.onlyNotes_definitionOf v definition).bind fun _ => Report.onlyNotes_pure _
  | compile name resource schema definition =>
    refine .report σ name ((Report.onlyNotes_ofExcept _).bind fun v => ?_)
    exact (σ.store.onlyNotes_compile v _ _).bind fun _ => Report.onlyNotes_pure _
  | required schema => exact .observe σ _
  | render document format => exact .observe σ _
  | equal left right => exact .observe σ _
  | writable name definition schema =>
    refine .produce σ name fun w t made => ?_
    obtain ⟨d, -, made⟩ := Except.exists_ok_of_bind made
    obtain ⟨v, -, made⟩ := Except.exists_ok_of_bind made
    obtain ⟨properties, -, made⟩ := Except.exists_ok_of_bind made
    obtain ⟨-, rfl⟩ := Prod.mk.inj (Except.ok.inj made)
    exact σ.store.extends_alloc _
  | withMethods name source methods =>
    refine .produce σ name fun w t made => ?_
    obtain ⟨v, -, made⟩ := Except.exists_ok_of_bind made
    exact Store.extends_copyWithMethods made
  | bind | schema | resource | assign | append | delete | look => exact asks.elim

/-- Whatever was made before is left alone by a step that only asks, whether or not the step
succeeds: all of it shows what it showed and lies where it lay, the journal keeps what it had, and
the one variable that may be bound anew is the target. -/
theorem asking_leaves_inputs (reachable : σ.Reachable) {step : SessionStep} (asks : step.Asks) :
    σ.Asked step.target? (σ.run step) ∧
      ∀ v, σ.store.Holds v → (σ.run step).1.store.unfold v = σ.store.unfold v := by
  have asked := σ.asked_run asks
  exact ⟨asked, fun v held => reachable.closed.store.unfold_of_extends asked.extends' held⟩

/-- Compiling in the sample binds the document and leaves everything else as it was. -/
theorem compiling_leaves_shared_inputs :
    SharedSample.session.Reachable ∧ SharedSample.compile.Asks ∧
      SharedSample.compiled.boundTo (text "document") = .ok (.ref 22) ∧
      (∀ n, n ≠ text "document" →
        SharedSample.compiled.bindings.lookup n = SharedSample.session.bindings.lookup n) ∧
      ∀ v, SharedSample.session.store.Holds v →
        SharedSample.compiled.store.unfold v = SharedSample.session.store.unfold v := by
  have reachable := SharedSample.declared_session.reachable
  have asks : SharedSample.compile.Asks := trivial
  obtain ⟨asked, shows⟩ := asking_leaves_inputs reachable asks
  rw [SharedSample.run_compile_eq] at asked shows
  obtain ⟨v, same, bound⟩ := asked.answered _ rfl (text "document") rfl
  obtain rfl := SessionAnswer.value.inj same
  have others := asked.others
  dsimp only at bound others shows
  refine ⟨reachable, asks, bound, fun n other => others n fun target => ?_, shows⟩
  exact other (Option.some.inj target).symm

/-! ## Runs -/

/-- Sessions that are come to by steps that only ask. -/
inductive AskedFrom (σ : Session) : Session → Prop
  | none : AskedFrom σ σ
  | step {τ : Session} {step : SessionStep} : AskedFrom σ τ → step.Asks → AskedFrom σ (τ.run step).1

/-- However much is asked, what there was at first lies where it lay, and the journal begins with
what it had. -/
theorem AskedFrom.leaves_inputs {τ : Session} (asked : AskedFrom σ τ) :
    σ.store.Extends τ.store ∧ ∃ noted, τ.journal = σ.journal.noteAll noted := by
  induction asked with
  | none => exact ⟨.refl _, [], σ.journal.noteAll_nil.symm⟩
  | @step τ step _ asks ih =>
    obtain ⟨extends', noted, before⟩ := ih
    have later := τ.asked_run asks
    obtain ⟨noted', behind⟩ := later.journal
    refine ⟨extends'.trans later.extends', noted ++ noted', ?_⟩
    rw [behind, before, Journal.noteAll_noteAll]

end Session

end SwaggerDoc
