import SwaggerDoc.Proofs.Document.Blame
import SwaggerDoc.Proofs.Nesting
import SwaggerDoc.Proofs.Number.Greatest
import SwaggerDoc.Proofs.Store.Reached

/-!
What can go wrong with an accepted schema.

A tag that is not recognised is the fault that is meant to happen. In a schema that is not nested
too deep, whose examples can be copied (`AcceptedSchema.IsManageable`), numbers are the only other
source of faults: an integer as a type can have too many digits to be shown, and a bound can be an
integer that no double comes near. Both limits are exact, and a schema that keeps to them comes to a
result or to a tag that is not recognised.
-/

namespace SwaggerDoc

mutual

/-- The number of schemas in each other that are visited in the type of a field. -/
def AcceptedTag.depth : AcceptedTag → Nat
  | .nested element => element.depth
  | _ => 0

/-- The number of schemas in each other that are visited in a schema, this one included. -/
def AcceptedSchema.depth : AcceptedSchema → Nat
  | .done => 1
  | .field name tag _ rest => if isPrivate name then rest.depth else max (tag.depth + 1) rest.depth

end

namespace Store

/-- One place points to another. -/
def Links (s : Store) (p q : Place) : Prop := q ∈ s.linksFrom p

/-- A value can be copied: nothing is reached from it of which nothing is known, and nothing is
nested in it too deep. -/
structure IsCopyable (s : Store) (v : Value) : Prop where
  known : ∀ p ∈ s.reached v, s.cell? p ≠ some .object
  shallow : ∀ p, v.place? = some p → NestsWithin s.Links sureDepth p

/-- What has no parts can be copied. -/
theorem isCopyable_scalar (s : Store) (x : Scalar) : s.IsCopyable (.scalar x) where
  known p member := by
    have nothing : ∀ q ∈ s.reached (.scalar x), False :=
      mem_of_mem_reached (fun _ none => none.elim) nofun
    exact (nothing p member).elim
  shallow := nofun

end Store

/-- What is done with the values in a schema does not fail by itself: schemas are not nested too
deep, no type is a thing of which nothing is known, so that it could refuse to be compared, and the
examples in what comes into the definition can be copied. -/
structure AcceptedSchema.IsManageable (t : AcceptedSchema) (s : Store) : Prop where
  shallow : t.depth ≤ sureDepth
  known : ∀ name, ∀ x ∈ t.visits name, ∀ v, x.tag = .plain v → s.deref? v ≠ some .object
  copyable : ∀ name, ∀ x ∈ t.visits name, (x.tag.kind? x.options.targetText).isSome →
    s.IsCopyable x.options.sample

/-- A visited field goes over a limit for numbers: its type is an integer of more than 4300 digits,
or its type maps to something and a bound is too large for a double. -/
inductive Visit.Exceeds (x : Visit) : Fault → Prop where
  | type (i : Int) (typed : x.tag = .plain (.scalar (.int i))) (long : tenTo 4300 ≤ i.natAbs) :
    x.Exceeds .badValue
  | bound (i : Int) (maps : (x.tag.kind? x.options.targetText).isSome)
    (given : x.options.least = some (.whole i) ∨ x.options.greatest = some (.whole i))
    (large : Binary64.leastTooLarge ≤ i.natAbs) : x.Exceeds .tooLarge

/-- The run comes to a result or to a tag that is not recognised, as long as no visited field goes
over a limit; any other fault is that of the first visited field at which anything goes wrong. -/
structure FailsOnlyAtLimits {α : Type} (visits : List Visit) (result : Except Fault α) : Prop where
  within : (∀ x ∈ visits, ∀ fault, ¬ x.Exceeds fault) →
    (∃ a, result = .ok a) ∨
      ∃ tag shown field, result = .error (.unrecognized tag shown (some (.text field)))
  beyond : ∀ fault, (∀ tag shown field, fault ≠ .unrecognized tag shown field) →
    (result = .error fault ↔
      ∃ before x after, visits = before ++ x :: after ∧ (∀ y ∈ before, y.fault? = none) ∧
        x.Exceeds fault)

theorem Check.Bound.isTooLarge_whole {i : Int} :
    (Check.Bound.whole i).isTooLarge = true ↔ Binary64.leastTooLarge ≤ i.natAbs := by
  rw [Check.Bound.isTooLarge, Option.isNone_iff_eq_none, Binary64.ofInt?_eq_none_iff]

theorem Check.Bound.any_isTooLarge {b : Option Check.Bound} :
    b.any Check.Bound.isTooLarge = true ↔
      ∃ i, b = some (.whole i) ∧ Binary64.leastTooLarge ≤ i.natAbs := by
  constructor
  · intro found
    obtain ⟨bound, rfl, large⟩ := Option.any_eq_true _ _ |>.mp found
    cases bound with
    | whole i => exact ⟨i, rfl, Check.Bound.isTooLarge_whole.mp large⟩
    | real f => cases large
  · rintro ⟨i, rfl, large⟩
    exact Check.Bound.isTooLarge_whole.mpr large

theorem Options.isOversized_iff {o : Options} :
    o.isOversized = true ↔
      ∃ i, (o.least = some (.whole i) ∨ o.greatest = some (.whole i)) ∧
        Binary64.leastTooLarge ≤ i.natAbs := by
  rw [Options.isOversized, Bool.or_eq_true, Check.Bound.any_isTooLarge,
    Check.Bound.any_isTooLarge]
  constructor
  · rintro (⟨i, given, large⟩ | ⟨i, given, large⟩)
    · exact ⟨i, .inl given, large⟩
    · exact ⟨i, .inr given, large⟩
  · rintro ⟨i, given | given, large⟩
    · exact .inl ⟨i, given, large⟩
    · exact .inr ⟨i, given, large⟩

theorem Scalar.long_of_shown_error {x : Scalar} {fault : Fault} (failed : x.shown = .error fault) :
    ∃ i, x = .int i ∧ tenTo 4300 ≤ i.natAbs := by
  cases x with
  | int i =>
    refine ⟨i, rfl, Nat.le_of_not_lt fun short => ?_⟩
    rw [Scalar.shown, integerText?, if_pos short] at failed
    cases failed
  | _ => cases failed

theorem AcceptedTag.stray?_of_kind? {t : AcceptedTag} {target : Text}
    (maps : (t.kind? target).isSome) : t.stray? = none := by
  cases t with
  | nested element => rfl
  | list => rfl
  | plain v =>
    cases v with
    | ref p => rfl
    | scalar x =>
      cases x with
      | fieldType t => rfl
      | _ => cases maps

namespace Visit

/-- What goes wrong at a visited field is a tag that is not recognised or a number over a limit. -/
theorem unrecognized_or_exceeds {x : Visit} {fault : Fault} (failed : x.fault? = some fault) :
    (∃ tag shown, fault = .unrecognized tag shown (some (.text x.field))) ∨ x.Exceeds fault := by
  unfold Visit.fault? at failed
  split at failed
  · next stray found =>
    obtain rfl := Option.some.inj failed
    unfold Fault.ofStray
    split
    · next shown _ => exact .inl ⟨_, shown, rfl⟩
    · next wrong =>
      obtain ⟨i, rfl, long⟩ := Scalar.long_of_shown_error wrong
      rw [Scalar.shown_error wrong]
      exact .inr (.type i (AcceptedTag.plain_of_stray? found) long)
  · split at failed
    · next both =>
      obtain rfl := Option.some.inj failed
      obtain ⟨maps, oversized⟩ := Bool.and_eq_true_iff.mp both
      obtain ⟨i, given, large⟩ := Options.isOversized_iff.mp oversized
      exact .inr (.bound i maps given large)
    · cases failed

theorem fault?_of_exceeds {x : Visit} {fault : Fault} (exceeds : x.Exceeds fault) :
    x.fault? = some fault := by
  cases exceeds with
  | type i typed long =>
    have positive := tenTo_pos 4300
    have present : (Scalar.int i).truthy = true := by
      rw [Scalar.truthy, bne_iff_ne]
      rintro rfl
      exact absurd long (Nat.not_le.mpr positive)
    have stray : x.tag.stray? = some (.int i) := by
      rw [typed]
      exact if_pos present
    have shown : (Scalar.int i).shown = .error .badValue := by
      rw [Scalar.shown, integerText?, if_neg (Nat.not_lt.mpr long)]
    rw [Visit.fault?, stray]
    simp only [Fault.ofStray, shown]
  | bound i maps given large =>
    have oversized : x.options.isOversized = true := Options.isOversized_iff.mpr ⟨i, given, large⟩
    rw [Visit.fault?, AcceptedTag.stray?_of_kind? maps]
    simp only [maps, oversized, Bool.and_self, if_true]

theorem failsOnlyAtLimits_pass {α : Type} (a : α) (visits : List Visit) (j : Journal) :
    FailsOnlyAtLimits visits (Visit.pass a visits j).1 := by
  rw [Visit.pass_apply]
  cases found : visits.findSome? Visit.fault? with
  | none =>
    have passed := List.findSome?_eq_none_iff.mp found
    refine ⟨fun _ => .inl ⟨a, rfl⟩, fun fault _ => ⟨nofun, ?_⟩⟩
    rintro ⟨before, x, after, rfl, -, exceeds⟩
    have := passed x (by simp)
    rw [fault?_of_exceeds exceeds] at this
    cases this
  | some fault =>
    obtain ⟨before, x, after, rfl, failed, passed⟩ := List.findSome?_eq_some_iff.mp found
    refine ⟨fun within => .inr ?_, fun other unexpected => ⟨fun same => ?_, ?_⟩⟩
    · rcases unrecognized_or_exceeds failed with ⟨tag, shown, rfl⟩ | exceeds
      · exact ⟨tag, shown, x.field, rfl⟩
      · exact absurd exceeds (within x (by simp) fault)
    · obtain rfl := Except.error.inj same
      rcases unrecognized_or_exceeds failed with ⟨tag, shown, rfl⟩ | exceeds
      · exact absurd rfl (unexpected tag shown _)
      · exact ⟨before, x, after, rfl, passed, exceeds⟩
    · rintro ⟨before', y, after', same, passed', exceeds⟩
      have first : (before ++ x :: after).findSome? Visit.fault? = some other :=
        List.findSome?_eq_some_iff.mpr ⟨before', y, after', same, fault?_of_exceeds exceeds, passed'⟩
      rw [found] at first
      obtain rfl := Option.some.inj first
      rfl

end Visit

/-- Normalizing an accepted schema that is manageable, and compiling an accepted resource with it,
fails with a tag that is not recognised or at a limit for numbers, whatever is noted. -/
theorem normalization_fails_only_at_limits {s : Store} {t : AcceptedSchema} {v : Value}
    (held : t.LiesAt s v) (_ : t.IsManageable s) (j : Journal) :
    (∀ name, FailsOnlyAtLimits (t.visits name) (s.definitionOf v name j).1) ∧
      ∀ (r : Resource) (resource : Value), r.LiesAt s resource →
        FailsOnlyAtLimits (t.visits r.model) (s.compile resource v .null j).1 := by
  refine ⟨fun name => ?_, fun r resource lies => ?_⟩
  · rw [held.definitionOf_eq name]
    exact Visit.failsOnlyAtLimits_pass _ _ j
  · rw [lies.compile_made held]
    exact Visit.failsOnlyAtLimits_pass _ _ j

/-! ## A bound over the limit -/

namespace LargeSample

/-- Options with a lower bound of 310 digits. -/
def options : Options := ⟨false, none, .null, [], some (.whole (tenTo 309)), none, none, false⟩

/-- A number with the bound. -/
def schema : AcceptedSchema :=
  .field (text "n") (.plain (.scalar (.fieldType .number))) options .done

/-- A resource with one method. -/
def resource : Resource := ⟨text "/users", text "user", text "User", [.get]⟩

/-- A store that holds the schema and the resource. -/
def store : Store where
  cells := #[
    .list [],
    .field ⟨.scalar (.fieldType .number), .scalar (.bool false), .null, .null, .ref 0,
      .scalar (.int (tenTo 309)), .null, .null, .scalar (.bool false)⟩,
    .map [(.ofText (text "n"), .ref 1)],
    .schema (.ref 2),
    .list [.scalar (.method .get)],
    .resource ⟨.ofText (text "/users"), .ofText (text "user"), .ofText (text "User"), .ref 4⟩]
  labels := 1
  given := []

theorem schema_liesAt : schema.LiesAt store (.ref 3) := by
  refine ⟨_, rfl, ?_⟩
  refine ⟨_, _, _, rfl, rfl, ⟨rfl, nofun, rfl⟩, ?_, by decide, rfl⟩
  exact ⟨rfl, rfl, rfl, rfl, rfl, rfl, rfl, rfl⟩

theorem resource_liesAt : resource.LiesAt store (.ref 5) := ⟨.ref 4, rfl, rfl⟩

/-- The visit of the only field. -/
def visit (name : Text) : Visit := ⟨name, text "n", .plain (.scalar (.fieldType .number)), options⟩

theorem visits_eq (name : Text) : schema.visits name = [] ++ visit name :: [] := by
  have visible : isPrivate (text "n") = false := by decide
  rw [schema, AcceptedSchema.visits, visible]
  rfl

theorem schema_isManageable : schema.IsManageable store where
  shallow := by decide
  known name x member v plain := by
    obtain rfl : x = visit name := by simpa [visits_eq] using member
    obtain rfl := AcceptedTag.plain.inj plain
    exact nofun
  copyable name x member _ := by
    obtain rfl : x = visit name := by simpa [visits_eq] using member
    exact store.isCopyable_scalar .null

theorem visit_exceeds (name : Text) : (visit name).Exceeds .tooLarge :=
  .bound (tenTo 309) rfl (.inl rfl) (by decide +kernel)

theorem failed_of_failsOnlyAtLimits {α : Type} {name : Text} {result : Except Fault α}
    (fails : FailsOnlyAtLimits (schema.visits name) result) : result = .error .tooLarge :=
  (fails.beyond .tooLarge nofun).mpr
    ⟨[], visit name, [], visits_eq name, List.forall_mem_nil _, visit_exceeds name⟩

end LargeSample

open LargeSample in
/-- The bound of the sample is a fault of its own, for the schema alone and with a resource. -/
theorem large_bound_fails_in_sample :
    (store.definitionOf (.ref 3) (text "M") ⟨none, []⟩).1 = .error .tooLarge ∧
      (store.compile (.ref 5) (.ref 3) .null ⟨none, []⟩).1 = .error .tooLarge := by
  have fails := normalization_fails_only_at_limits schema_liesAt schema_isManageable ⟨none, []⟩
  constructor
  · exact failed_of_failsOnlyAtLimits (fails.1 (text "M"))
  · exact failed_of_failsOnlyAtLimits (fails.2 resource (.ref 5) resource_liesAt)

open LargeSample in
/-- Not every accepted schema comes to a result or to a tag that is not recognised. -/
theorem normalization_can_fail_otherwise :
    ¬ ∀ (s : Store) (t : AcceptedSchema) (v : Value) (name : Text) (j : Journal), t.LiesAt s v →
      (∃ a, (s.definitionOf v name j).1 = .ok a) ∨
        ∃ tag shown field, (s.definitionOf v name j).1 = .error (.unrecognized tag shown field) := by
  intro expected
  have outcome := expected store schema (.ref 3) (text "M") ⟨none, []⟩ schema_liesAt
  have failed : (store.definitionOf (.ref 3) (text "M") ⟨none, []⟩).1 = .error .tooLarge := by
    rw [schema_liesAt.definitionOf_eq]
    exact failed_of_failsOnlyAtLimits (Visit.failsOnlyAtLimits_pass _ _ _)
  rw [failed] at outcome
  rcases outcome with ⟨a, same⟩ | ⟨tag, shown, field, same⟩
  · cases same
  · cases same

end SwaggerDoc
