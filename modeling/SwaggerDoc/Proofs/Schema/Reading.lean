import SwaggerDoc.Proofs.Schema.Accepted
import Mathlib.Data.List.Perm.Subperm

/-!
Reading accepted schemas.

The outline of an accepted schema is its content without the private fields. It is what reading
gives (`AcceptedSchema.LiesAt.read_eq`): the depth to which schemas are read is never reached,
because the schemas around one that is read lie at different places.
-/

namespace SwaggerDoc

mutual

/-- The outline of the type of an accepted field. -/
def AcceptedTag.outline : AcceptedTag → Tag
  | .nested element => .nested element.outline
  | .list => .list
  | .plain v => .plain v

/-- The outline of an accepted schema. -/
def AcceptedSchema.outline : AcceptedSchema → Outline
  | .done => .done
  | .field name tag options rest =>
    if isPrivate name then rest.outline
    else .field (.text name) (.declared tag.outline options.modifiers) rest.outline

end

mutual

@[simp] theorem AcceptedTag.isBroken_outline : (t : AcceptedTag) → t.outline.isBroken = false
  | .nested element => by
    rw [AcceptedTag.outline, Tag.isBroken, AcceptedSchema.isBroken_outline element]
  | .list => rfl
  | .plain _ => rfl

@[simp] theorem AcceptedSchema.isBroken_outline :
    (t : AcceptedSchema) → t.outline.isBroken = false
  | .done => rfl
  | .field name tag options rest => by
    rw [AcceptedSchema.outline]
    split
    · exact AcceptedSchema.isBroken_outline rest
    · rw [Outline.isBroken, Entry.isBroken, AcceptedTag.isBroken_outline tag,
        AcceptedSchema.isBroken_outline rest]
      rfl

end

/-! ## Options are read as they are -/

theorem Store.modifiers_description {s : Store} (t : Option Text) :
    (⟨.ofText? t, s.truthy (.ofText? t)⟩ : Attribute) = .ofText? t := by
  cases t <;> rfl

theorem Store.written_target {s : Store} (t : Option Text) :
    (if s.truthy (.ofText? t) then s.written (.ofText? t) else .ok []) = .ok (t.getD []) := by
  rcases t with _ | _ | ⟨c, t⟩ <;> rfl

theorem Store.choices_of_texts {s : Store} {v : Value} {texts : List Text}
    (list : s.deref? v = some (.list (texts.map .ofText))) :
    (if s.truthy v then s.choices v else .ok []) =
      .ok (texts.map fun t => .value (.ofText t)) := by
  cases v with
  | scalar x => cases list
  | ref p =>
    have cell : s.cell? p = some (.list (texts.map .ofText)) := list
    cases texts <;> simp [Store.truthy, Store.choices, cell]

/-- The modifiers of a declaration that holds the options. -/
theorem Options.LieIn.modifiers_eq {s : Store} {f : FieldCell} {o : Options} (lie : o.LieIn s f) :
    s.modifiers f = o.modifiers := by
  have choices := Store.choices_of_texts lie.choices
  have target := Store.written_target (s := s) o.target
  have description := Store.modifiers_description (s := s) o.description
  simp only [Store.modifiers, Options.modifiers, lie.required, lie.description, lie.sample,
    lie.least, lie.greatest, lie.target, lie.readonly, choices, target, description]
  rfl

/-! ## Fields are read one after the other -/

theorem Outline.ofEntries_text {entry : Value → Entry} {name : Text} {v : Value}
    {rest : List (Value × Value)} :
    Outline.ofEntries entry ((.ofText name, v) :: rest) =
      if isPrivate name then Outline.ofEntries entry rest
      else .field (.text name) (entry v)
        (if (entry v).isBroken then .broken .tooDeep else Outline.ofEntries entry rest) := by
  rw [Outline.ofEntries]
  · rfl
  · intro o same
    cases same

/-- The reader gives the outline of every schema that the types of the fields hold. -/
def Store.ReadsElements (s : Store) (nested : Value → Outline) (t : AcceptedSchema) : Prop :=
  ∀ element ∈ t.elements, ∀ v, element.LiesAt s v → nested v = element.outline

theorem AcceptedTag.LiesAt.read_eq {s : Store} {nested : Value → Outline} {v : Value} :
    {t : AcceptedTag} → t.LiesAt s v →
      (∀ element, t = .nested element → ∀ v, element.LiesAt s v → nested v = element.outline) →
      Tag.read s nested v = t.outline
  | .nested element, lies, reads => by
    obtain ⟨first, rest, entries, list, schema, inside⟩ := lies
    obtain ⟨fields, found⟩ := Store.deref?_of_schemaEntries? schema
    simp only [Tag.read, list, Tag.ofFirst, found, AcceptedTag.outline,
      reads element rfl first ⟨entries, schema, inside⟩]
  | .list, lies, _ => by
    obtain ⟨items, list, none⟩ := lies
    cases items with
    | nil => simp only [Tag.read, list, AcceptedTag.outline]
    | cons first rest =>
      simp only [Tag.read, list, Tag.ofFirst, AcceptedTag.outline]
      split
      · next fields found => exact absurd found (none first rfl fields)
      · rfl
  | .plain w, lies, _ => by
    obtain ⟨rfl, noList, -⟩ := lies
    unfold Tag.read
    split
    · next found => exact absurd found (noList _)
    · next found => exact absurd found (noList _)
    · rfl

theorem AcceptedSchema.LiesIn.ofEntries_eq {s : Store} {nested : Value → Outline} :
    {t : AcceptedSchema} → {entries : List (Value × Value)} → t.LiesIn s entries →
      s.ReadsElements nested t → Outline.ofEntries (.read s nested) entries = t.outline
  | .done, _, lies, _ => by
    obtain rfl := lies
    rfl
  | .field name tag options rest, _, lies, reads => by
    obtain ⟨v, f, later, rfl, cell, type, modifiers, -, lies⟩ := lies
    have readsRest : s.ReadsElements nested rest := by
      intro element member
      apply reads
      cases tag <;> simp [AcceptedSchema.elements, member]
    have readsTag (element : AcceptedSchema) (same : tag = .nested element) (v : Value)
        (lies : element.LiesAt s v) : nested v = element.outline := by
      subst same
      exact reads element (by simp [AcceptedSchema.elements]) v lies
    have entry : Entry.read s nested v = .declared tag.outline options.modifiers := by
      simp only [Entry.read, cell, Entry.stored, type.read_eq readsTag, modifiers.modifiers_eq]
    have later := lies.ofEntries_eq readsRest
    simp only [Outline.ofEntries_text, entry, Entry.isBroken, AcceptedTag.isBroken_outline, later,
      Bool.false_eq_true, if_false, AcceptedSchema.outline]

/-! ## Schemas around each other lie at different places -/

theorem AcceptedSchema.sizeOf_lt_of_mem_elements {element : AcceptedSchema} :
    {t : AcceptedSchema} → element ∈ t.elements → sizeOf element < sizeOf t
  | .field name tag options rest, member => by
    have rest' (inside : element ∈ rest.elements) : sizeOf element < sizeOf rest :=
      sizeOf_lt_of_mem_elements inside
    cases tag with
    | nested inner =>
      rcases List.mem_cons.mp member with rfl | inside
      · simp +arith
      · have := rest' inside
        simp +arith
        omega
    | list =>
      have := rest' member
      simp +arith
      omega
    | plain v =>
      have := rest' member
      simp +arith
      omega

/-- The places hold schemas that are larger than the given one. -/
def AcceptedSchema.LiesInside (s : Store) (t : AcceptedSchema) (outer : List Place) : Prop :=
  outer.Nodup ∧ ∀ p ∈ outer, ∃ around : AcceptedSchema,
    around.LiesAt s (.ref p) ∧ sizeOf t < sizeOf around

/-- What a schema lies at is a filled place. -/
theorem AcceptedSchema.LiesAt.exists_place {s : Store} {t : AcceptedSchema} {v : Value}
    (lies : t.LiesAt s v) : ∃ p < s.size, v = .ref p := by
  obtain ⟨entries, found, -⟩ := lies
  obtain ⟨fields, cell⟩ := Store.deref?_of_schemaEntries? found
  cases v with
  | scalar x => cases cell
  | ref p => exact ⟨p, Store.lt_size_of_cell? cell, rfl⟩

theorem AcceptedSchema.LiesInside.length_le {s : Store} {t : AcceptedSchema} {outer : List Place}
    (inside : t.LiesInside s outer) : outer.length ≤ s.size := by
  have filled : outer ⊆ List.range s.size := by
    intro p member
    obtain ⟨around, lies, -⟩ := inside.2 p member
    obtain ⟨q, bound, same⟩ := lies.exists_place
    obtain rfl := Value.ref.inj same
    exact List.mem_range.mpr bound
  simpa using (List.Nodup.subperm inside.1 filled).length_le

/-- The place of a schema is one more place around the schemas that its types hold. -/
theorem AcceptedSchema.LiesInside.enter {s : Store} {t element : AcceptedSchema} {p : Place}
    {outer : List Place} (inside : t.LiesInside s outer) (lies : t.LiesAt s (.ref p))
    (member : element ∈ t.elements) : element.LiesInside s (p :: outer) := by
  have smaller := sizeOf_lt_of_mem_elements member
  refine ⟨List.nodup_cons.mpr ⟨?_, inside.1⟩, ?_⟩
  · intro again
    obtain ⟨around, lies', larger⟩ := inside.2 p again
    rw [lies.unique lies'] at larger
    exact Nat.lt_irrefl _ larger
  · intro q place
    rcases List.mem_cons.mp place with rfl | place
    · exact ⟨t, lies, smaller⟩
    · obtain ⟨around, lies', larger⟩ := inside.2 q place
      exact ⟨around, lies', Nat.lt_trans smaller larger⟩

theorem AcceptedSchema.LiesAt.readWithin_eq {s : Store} {t : AcceptedSchema} {v : Value}
    {depth : Nat} {outer : List Place} (lies : t.LiesAt s v) (inside : t.LiesInside s outer)
    (deep : s.size < depth + outer.length) : Outline.readWithin s depth v = t.outline := by
  induction depth generalizing t v outer with
  | zero =>
    have := inside.length_le
    omega
  | succ depth ih =>
    obtain ⟨p, -, rfl⟩ := lies.exists_place
    have reads : s.ReadsElements (Outline.readWithin s depth) t := by
      intro element member v lies'
      apply ih lies' (inside.enter lies member)
      simp only [List.length_cons]
      omega
    obtain ⟨entries, found, fields⟩ := lies
    have entriesRead := fields.ofEntries_eq reads
    obtain ⟨fields', schema, map⟩ := Store.exists_fields_of_schemaEntries? found
    simp only [Outline.readWithin, schema, map, entriesRead]

/-- Reading an accepted schema gives the outline of its content, however deep it is nested. -/
theorem AcceptedSchema.LiesAt.read_eq {s : Store} {t : AcceptedSchema} {v : Value}
    (lies : t.LiesAt s v) : Outline.read s v = t.outline :=
  lies.readWithin_eq ⟨List.nodup_nil, by simp⟩ (by simp)

end SwaggerDoc
