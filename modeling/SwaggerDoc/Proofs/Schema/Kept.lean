import SwaggerDoc.Proofs.Definition.Values
import SwaggerDoc.Proofs.Document.Compiling
import SwaggerDoc.Proofs.Document.Values
import SwaggerDoc.Proofs.Store.Plain

/-!
Accepted schemas and resources in stores that grow.

What lies in a closed store as validation leaves it lies so in every store that has more. Nothing
comes into its document but scalars and copies of what the first store holds already.
-/

namespace SwaggerDoc

variable {s u : Store}

/-! ## They stay accepted -/

theorem Store.Extends.schemaEntries?_of_some (extends' : s.Extends u) {v : Value}
    {entries : List (Value × Value)} (found : s.schemaEntries? v = some entries) :
    u.schemaEntries? v = some entries := by
  unfold Store.schemaEntries? at found
  split at found
  · next fields schema =>
    split at found
    · next entries' map =>
      obtain rfl := Option.some.inj found
      simp only [Store.schemaEntries?, extends'.deref?_of_some schema,
        extends'.deref?_of_some map]
    · cases found
  · cases found

theorem Store.Closed.holds_attribute (closed : s.Closed) {v : Value} {f : FieldCell}
    (cell : s.deref? v = some (.field f)) : ∀ w ∈ f.attributes, s.Holds w :=
  closed.holds_parts_of_deref? cell

theorem Options.LieIn.mono {o : Options} {f : FieldCell} (lies : o.LieIn s f)
    (extends' : s.Extends u) : o.LieIn u f :=
  { lies with choices := extends'.deref?_of_some lies.choices }

section Keeps

variable {values : Value → Prop} (keeps : s.Keeps u values)
include keeps

theorem Store.Keeps.schemaEntries?_of_some {v : Value} {entries : List (Value × Value)}
    (inside : values v) (found : s.schemaEntries? v = some entries) :
    u.schemaEntries? v = some entries ∧ ∀ e ∈ entries, values e.2 := by
  unfold Store.schemaEntries? at found
  split at found
  · next fields schema =>
    have fieldsInside := keeps.parts inside schema fields (List.mem_singleton_self _)
    split at found
    · next entries' map =>
      obtain rfl := Option.some.inj found
      refine ⟨?_, fun e member => ?_⟩
      · simp only [Store.schemaEntries?, keeps.deref?_of_some inside schema,
          keeps.deref?_of_some fieldsInside map]
      · exact keeps.parts fieldsInside map e.2 (List.mem_flatMap.mpr ⟨e, member, by simp⟩)
    · cases found
  · cases found

mutual

/-- An accepted type lies where it lay if what it is made of is kept. -/
theorem AcceptedTag.LiesAt.of_keeps :
    {tag : AcceptedTag} → {v : Value} → values v → tag.LiesAt s v → tag.LiesAt u v
  | .nested _, v, inside, ⟨first, rest, entries, list, schema, fields⟩ => by
    have leading := keeps.parts inside list first List.mem_cons_self
    obtain ⟨found, each⟩ := keeps.schemaEntries?_of_some leading schema
    exact ⟨first, rest, entries, keeps.deref?_of_some inside list, found,
      AcceptedSchema.LiesIn.of_keeps each fields⟩
  | .list, v, inside, ⟨items, list, other⟩ => by
    refine ⟨items, keeps.deref?_of_some inside list, fun first leads fields => ?_⟩
    have leading := keeps.parts inside list first (List.mem_of_mem_head? leads)
    rw [keeps.deref?_eq leading]
    exact other first leads fields
  | .plain _, _, inside, ⟨same, noList, named⟩ => by
    refine ⟨same, fun items => ?_, named⟩
    rw [keeps.deref?_eq inside]
    exact noList items

/-- Accepted fields lie where they lay if what they are made of is kept. -/
theorem AcceptedSchema.LiesIn.of_keeps :
    {t : AcceptedSchema} → {entries : List (Value × Value)} → (∀ e ∈ entries, values e.2) →
      t.LiesIn s entries → t.LiesIn u entries
  | .done, _, _, lies => lies
  | .field _ _ _ _, _, inside, ⟨v, f, later, same, cell, type, modifiers, fresh, fields⟩ => by
    subst same
    obtain ⟨first, others⟩ := List.forall_mem_cons.mp inside
    have attributes := keeps.parts first cell
    have typeInside := attributes f.tag (by simp [Cell.parts, FieldCell.attributes])
    have choicesInside := attributes f.choices (by simp [Cell.parts, FieldCell.attributes])
    exact ⟨v, f, later, rfl, keeps.deref?_of_some first cell,
      AcceptedTag.LiesAt.of_keeps typeInside type,
      { modifiers with choices := keeps.deref?_of_some choicesInside modifiers.choices }, fresh,
      AcceptedSchema.LiesIn.of_keeps others fields⟩

end

theorem AcceptedSchema.LiesAt.of_keeps {t : AcceptedSchema} {v : Value} (inside : values v)
    (lies : t.LiesAt s v) : t.LiesAt u v := by
  obtain ⟨entries, schema, fields⟩ := lies
  obtain ⟨found, each⟩ := keeps.schemaEntries?_of_some inside schema
  exact ⟨entries, found, fields.of_keeps keeps each⟩

end Keeps

theorem AcceptedTag.LiesAt.mono (closed : s.Closed) (extends' : s.Extends u) {tag : AcceptedTag}
    {v : Value} (held : s.Holds v) (lies : tag.LiesAt s v) : tag.LiesAt u v :=
  lies.of_keeps (closed.keeps_of_extends extends') held

theorem AcceptedSchema.LiesIn.holds :
    {t : AcceptedSchema} → {entries : List (Value × Value)} → t.LiesIn s entries →
      ∀ e ∈ entries, s.Holds e.2
  | .done, _, rfl => List.forall_mem_nil _
  | .field _ _ _ _, _, ⟨_, _, _, same, cell, _, _, _, inside⟩ => by
    subst same
    exact List.forall_mem_cons.mpr
      ⟨Store.Holds.of_deref? cell, AcceptedSchema.LiesIn.holds inside⟩

theorem AcceptedSchema.LiesIn.mono {t : AcceptedSchema} {entries : List (Value × Value)}
    (lies : t.LiesIn s entries) (closed : s.Closed) (extends' : s.Extends u) :
    t.LiesIn u entries :=
  lies.of_keeps (closed.keeps_of_extends extends') lies.holds

theorem AcceptedSchema.LiesAt.mono {t : AcceptedSchema} {v : Value} (lies : t.LiesAt s v)
    (closed : s.Closed) (extends' : s.Extends u) : t.LiesAt u v := by
  obtain ⟨entries, found, inside⟩ := lies
  exact ⟨entries, extends'.schemaEntries?_of_some found, inside.mono closed extends'⟩

theorem Resource.LiesAt.mono {r : Resource} {v : Value} (lies : r.LiesAt s v)
    (extends' : s.Extends u) : r.LiesAt u v := by
  obtain ⟨methods, cell, list⟩ := lies
  exact ⟨methods, extends'.deref?_of_some cell, extends'.deref?_of_some list⟩

/-! ## What comes into their documents -/

theorem Options.isPlainScalar_of_allowable {o : Options} {a : Allowable}
    (allows : o.allowable = some a) :
    ∀ v ∈ a.values, v.IsPlainScalar := by
  have bound (b : Option Check.Bound) (v : Value) (number : Check.Bound.number? b = some v) :
      v.IsPlainScalar := by
    obtain ⟨b, -, rfl⟩ := Option.map_eq_some_iff.mp number
    cases b <;> exact ⟨_, rfl, rfl⟩
  intro v member
  unfold Options.allowable at allows
  split at allows
  · obtain rfl := Option.some.inj allows
    rcases List.mem_append.mp member with least | greatest
    · exact bound o.least v (Option.mem_toList.mp least)
    · exact bound o.greatest v (Option.mem_toList.mp greatest)
  · split at allows
    · cases allows
    · obtain rfl := Option.some.inj allows
      obtain ⟨c, listed, rfl⟩ := List.mem_map.mp member
      obtain ⟨t, -, rfl⟩ := List.mem_map.mp listed
      exact ⟨_, rfl, rfl⟩

mutual

/-- The examples of the fields in the type, at every depth. -/
def AcceptedTag.samples : AcceptedTag → List Value
  | .nested element => element.samples
  | _ => []

/-- The examples of the fields, at every depth. -/
def AcceptedSchema.samples : AcceptedSchema → List Value
  | .done => []
  | .field _ tag options rest => options.sample :: (tag.samples ++ rest.samples)

end

section Uses

variable {copied : Value → Prop}

theorem Options.uses_property {o : Options} {kind : Kind} (sampled : copied o.sample)
    (inside : kind.Uses Value.IsPlainScalar copied) :
    (o.property kind).Uses Value.IsPlainScalar copied := by
  refine ⟨inside, ?_, ?_, fun a allows => Options.isPlainScalar_of_allowable allows⟩
  · intro v described
    obtain ⟨t, -, rfl⟩ := Option.map_eq_some_iff.mp described
    exact ⟨_, rfl, rfl⟩
  · intro v found
    unfold Options.example? at found
    split at found
    · cases found
    · obtain rfl := Option.some.inj found
      exact sampled

mutual

theorem AcceptedTag.uses_kind {target : Text} {kind : Kind} : {tag : AcceptedTag} →
    (∀ x ∈ tag.samples, copied x) → tag.kind? target = some kind →
      kind.Uses Value.IsPlainScalar copied
  | .nested element, sampled, maps => by
    obtain rfl := Option.some.inj maps
    exact AcceptedSchema.uses_properties (t := element) sampled
  | .list, _, maps => by
    obtain rfl := Option.some.inj maps
    trivial
  | .plain v, _, maps => by
    cases v with
    | ref p => cases maps
    | scalar x =>
      cases x with
      | fieldType t =>
        cases t with
        | object => cases maps
        | _ =>
          obtain rfl := Option.some.inj maps
          trivial
      | _ => cases maps

/-- The properties of a schema have plain scalars and the examples of its fields. -/
theorem AcceptedSchema.uses_properties : {t : AcceptedSchema} → (∀ x ∈ t.samples, copied x) →
    Property.AllUse Value.IsPlainScalar copied t.collected.properties
  | .done, _ => trivial
  | .field name tag options rest, sampled => by
    obtain ⟨here, others⟩ := List.forall_mem_cons.mp sampled
    obtain ⟨within, later⟩ := List.forall_mem_append.mp others
    have others := AcceptedSchema.uses_properties later
    rw [AcceptedSchema.collected]
    split
    · exact others
    · split
      · exact others
      · next kind maps =>
        exact ⟨⟨_, rfl, rfl⟩,
          Options.uses_property here (AcceptedTag.uses_kind within maps), others⟩

end

/-- The definition of an accepted schema has plain scalars and the examples of its fields. -/
theorem AcceptedSchema.takes_samples {t : AcceptedSchema} (sampled : ∀ x ∈ t.samples, copied x) :
    t.definition.shape.Takes Value.IsPlainScalar copied := by
  have uses : t.definition.Uses Value.IsPlainScalar copied := t.uses_properties sampled
  exact Definition.takes_shape (fun t => ⟨_, rfl, rfl⟩) uses

/-- The examples of all declarations in the store are as said. -/
def Store.Samples (s : Store) (copied : Value → Prop) : Prop :=
  ∀ p f, s.cell? p = some (.field f) → copied f.sample

mutual

theorem AcceptedTag.LiesAt.forall_samples (samples : s.Samples copied) : {tag : AcceptedTag} →
    {v : Value} → tag.LiesAt s v → ∀ x ∈ tag.samples, copied x
  | .nested _, _, ⟨_, _, _, _, _, inside⟩ => AcceptedSchema.LiesIn.forall_samples samples inside
  | .list, _, _ => List.forall_mem_nil _
  | .plain _, _, _ => List.forall_mem_nil _

/-- The examples of a schema that lies in the store are examples of declarations there. -/
theorem AcceptedSchema.LiesIn.forall_samples (samples : s.Samples copied) :
    {t : AcceptedSchema} → {entries : List (Value × Value)} → t.LiesIn s entries →
      ∀ x ∈ t.samples, copied x
  | .done, _, _ => List.forall_mem_nil _
  | .field _ tag options rest, _, ⟨v, f, _, _, cell, type, modifiers, _, inside⟩ => by
    have here : copied options.sample := by
      cases v with
      | scalar x => cases cell
      | ref p => exact modifiers.sample ▸ samples p f cell
    exact List.forall_mem_cons.mpr ⟨here, List.forall_mem_append.mpr
      ⟨AcceptedTag.LiesAt.forall_samples samples type,
        AcceptedSchema.LiesIn.forall_samples samples inside⟩⟩

end

theorem AcceptedSchema.LiesAt.forall_samples {t : AcceptedSchema} {v : Value} (lies : t.LiesAt s v)
    (samples : s.Samples copied) : ∀ x ∈ t.samples, copied x := by
  obtain ⟨entries, -, inside⟩ := lies
  exact AcceptedSchema.LiesIn.forall_samples samples inside

theorem AcceptedSchema.LiesAt.takes_samples {t : AcceptedSchema} {v : Value} (lies : t.LiesAt s v)
    (samples : s.Samples copied) : t.definition.shape.Takes Value.IsPlainScalar copied :=
  AcceptedSchema.takes_samples (lies.forall_samples samples)

end Uses

theorem Shape.Takes.heldBy_of_isPlainScalar {shape : Shape}
    (takes : shape.Takes Value.IsPlainScalar s.Holds) : shape.HeldBy s :=
  takes.imp (fun _ => Value.IsPlainScalar.holds) fun _ held => held

theorem Store.Closed.samples (closed : s.Closed) : s.Samples s.Holds := fun _ f cell =>
  closed.holds_part cell f.sample (by simp [Cell.parts, FieldCell.attributes])

theorem AcceptedSchema.LiesAt.takes_definition {t : AcceptedSchema} {v : Value}
    (lies : t.LiesAt s v) (closed : s.Closed) :
    t.definition.shape.Takes Value.IsPlainScalar s.Holds :=
  lies.takes_samples closed.samples

/-- The document of an accepted resource has plain scalars of its own and what comes in with the
definition. -/
theorem Resource.takes_document (r : Resource) {copied : Value → Prop} {definition : ModelDefinition}
    (defined : definition.shape.Takes Value.IsPlainScalar copied) :
    (r.document definition).shape.Takes Value.IsPlainScalar copied :=
  Document.takes_shape Value.isPlainScalar ⟨_, rfl, rfl⟩ ⟨_, rfl, rfl⟩ ⟨_, rfl, rfl⟩ defined

end SwaggerDoc
