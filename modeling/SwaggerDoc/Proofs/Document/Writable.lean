import SwaggerDoc.Proofs.Definition.Selected
import SwaggerDoc.Proofs.Document.Alike
import SwaggerDoc.Proofs.Outcome
import SwaggerDoc.Proofs.Store.Keys

/-!
The properties that may be written.

Asked for the properties of a definition that may be written, a schema leaves out those under the
name of a field that is only to be read, and keeps all others in their order
(`LiesAt.writableProperties_eq`). A definition that was made from the schema has the fields that are
emitted, so the others of these are left (`HasDescriptors.writableProperties_eq`). The flag has no
influence on the definition: with more flags set, the same properties are there and more of them are
left out (`WritesLess`).
-/

namespace SwaggerDoc

namespace AcceptedSchema

/-- The names of the fields that are only to be read. -/
def readonlyNames : AcceptedSchema → List Text
  | .done => []
  | .field name _ options rest =>
    if options.readonly then name :: rest.readonlyNames else rest.readonlyNames

/-- Whether a key is the name of a field that is only to be read. -/
def locks (t : AcceptedSchema) (key : Value) : Bool :=
  key.asText?.any t.readonlyNames.contains

/-- The fields that have properties and are not only to be read. -/
def writable (t : AcceptedSchema) : List (Text × AcceptedTag) :=
  t.selected.filter fun f => !t.readonlyNames.contains f.1

theorem readonlyNames_sublist_names (t : AcceptedSchema) : t.readonlyNames.Sublist t.names := by
  induction t using AcceptedSchema.readonlyNames.induct with
  | case1 => exact .slnil
  | case2 name tag options rest readonly later =>
    rw [readonlyNames, if_pos readonly]
    exact later.cons_cons name
  | case3 name tag options rest writable later =>
    rw [readonlyNames, if_neg writable]
    exact later.cons name

/-- A key that is the name of no field is not locked. -/
theorem locks_of_unnamed {t : AcceptedSchema} {key : Value}
    (unnamed : ∀ name ∈ t.names, key.asText? ≠ some name) : t.locks key = false := by
  cases named : key.asText? with
  | none => rw [locks, named, Option.any_none]
  | some name =>
    have absent : name ∉ t.readonlyNames := fun member =>
      unnamed name (t.readonlyNames_sublist_names.subset member) named
    rw [locks, named, Option.any_some, List.contains_eq_mem, decide_eq_false absent]

/-- The flag of the first field decides on its own name and on no other key. -/
theorem locks_field {name : Text} {rest : AcceptedSchema} (fresh : name ∉ rest.names)
    (tag : AcceptedTag) (options : Options) (key : Value) :
    (AcceptedSchema.field name tag options rest).locks key =
      if key.asText? = some name then options.readonly else rest.locks key := by
  have absent : name ∉ rest.readonlyNames := fun member =>
    fresh (rest.readonlyNames_sublist_names.subset member)
  cases named : key.asText? with
  | none => simp [locks, named]
  | some other =>
    by_cases same : other = name
    · cases readonly : options.readonly <;>
        simp [locks, readonlyNames, named, same, readonly, absent]
    · cases readonly : options.readonly <;>
        simp [locks, readonlyNames, named, same, readonly]

/-- In an accepted schema every key can be asked for, and the flag of the field with this name
decides. -/
theorem LiesIn.writable_eq {s : Store} (key : Value) : {t : AcceptedSchema} →
    {fields : List (Value × Value)} → t.LiesIn s fields → s.writable fields key = .ok (!t.locks key)
  | .done, _, rfl => by
    rw [locks_of_unnamed (List.forall_mem_nil _)]
    rfl
  | .field name tag options rest, _, ⟨v, f, later, same, cell, _, modifiers, fresh, inside⟩ => by
    subst same
    rw [locks_field fresh]
    cases v with
    | scalar x => cases cell
    | ref p =>
      by_cases named : key.asText? = some name
      · have found : s.lookup? ((.ofText name, .ref p) :: later) key = some (.ref p) := by
          rw [Store.lookup?, List.find?_cons, Store.sameKey_ofText, named, beq_self_eq_true]
          rfl
        simp only [Store.writable, found, cell, if_pos named, modifiers.readonly]
        rfl
      · have passed : s.lookup? ((.ofText name, .ref p) :: later) key = s.lookup? later key := by
          rw [Store.lookup?, List.find?_cons, Store.sameKey_ofText,
            beq_eq_false_iff_ne.mpr named]
          rfl
        rw [if_neg named, Store.writable, passed]
        exact LiesIn.writable_eq key inside

/-- Whatever the definition is: the properties whose keys are not locked are left, in their
order. -/
theorem LiesAt.writableProperties_eq {s : Store} {t : AcceptedSchema} {v : Value}
    (held : t.LiesAt s v) {d p : Value} {entries properties : List (Value × Value)}
    (cell : s.deref? d = some (.map entries))
    (found : lookupText? entries (text "properties") = some p)
    (cell' : s.deref? p = some (.map properties)) :
    s.writableProperties d v =
      .ok ((properties.filter fun e => !t.locks e.1).map Prod.snd) := by
  obtain ⟨declared, schema, inside⟩ := held
  obtain ⟨fields, schema, map⟩ := Store.exists_fields_of_schemaEntries? schema
  have asked : (fun e : Value × Value => s.writable declared e.1) = fun e => .ok (!t.locks e.1) :=
    funext fun e => inside.writable_eq e.1
  simp only [Store.writableProperties, cell, found, cell', schema, map]
  cases properties with
  | nil => rfl
  | cons e rest =>
    show (do
      let kept ← (e :: rest).filterM fun e : Value × Value => s.writable declared e.1
      pure (kept.map Prod.snd)) = _
    rw [asked, Except.filterM_ok]
    rfl

/-! ## The definition of a schema -/

/-- The definition has the descriptors, under the names of the fields that are emitted. -/
structure HasDescriptors (t : AcceptedSchema) (u : Store) (d : Value)
    (descriptors : List (Text × Value)) : Prop where
  names : descriptors.map Prod.fst = t.selected.map Prod.fst
  properties : ∃ p, u.deref? d = some (.map [(.ofText (text "properties"), p)]) ∧
    u.deref? p = some (.map (descriptors.map fun e => (.ofText e.1, e.2)))

/-- The descriptors whose names are not those of fields that are only to be read. -/
def unlocked (t : AcceptedSchema) (descriptors : List (Text × Value)) : List (Text × Value) :=
  descriptors.filter fun e => !t.readonlyNames.contains e.1

variable {s u : Store} {t t' : AcceptedSchema} {v d : Value} {descriptors : List (Text × Value)}

theorem HasDescriptors.writableProperties_eq (has : t.HasDescriptors u d descriptors)
    (held : t.LiesAt u v) :
    u.writableProperties d v = .ok ((t.unlocked descriptors).map Prod.snd) := by
  obtain ⟨p, cell, cell'⟩ := has.properties
  rw [held.writableProperties_eq cell rfl cell', List.filter_map, List.map_map]
  rfl

theorem HasDescriptors.names_unlocked (has : t.HasDescriptors u d descriptors) :
    (t.unlocked descriptors).map Prod.fst = t.writable.map Prod.fst := by
  have filtered (l : List (Text × Value)) : (t.unlocked l).map Prod.fst =
      (l.map Prod.fst).filter fun name => !t.readonlyNames.contains name := by
    rw [List.filter_map]
    rfl
  rw [filtered, has.names, List.filter_map]
  rfl

end AcceptedSchema

/-- A mapping inside another one, each entry of which shows what it showed before it was placed. -/
theorem Shape.exists_entries_of_place {s : Store} (closed : s.Closed) {key : Value}
    {entries : List (Value × Shape)} (held : EntriesHeldBy s entries) :
    let placed := (Shape.map [(key, .map entries)]).place s
    ∃ p values, placed.2.deref? placed.1 = some (.map [(key, p)]) ∧
      placed.2.deref? p = some (.map values) ∧
      values.map Prod.fst = entries.map Prod.fst ∧
      values.map (fun e => (placed.2.unfold e.1, placed.2.unfold e.2)) = treeEntries s entries := by
  intro placed
  have inner : placed.2.deref? placed.1 =
      some (.map [(key, ((Shape.map entries).place s).1)]) := Store.deref?_alloc _ _
  have grown : ((Shape.map entries).place s).2.Extends placed.2 := Store.extends_alloc _ _
  have first : (placeEntries s entries).2.Extends ((Shape.map entries).place s).2 :=
    Store.extends_alloc _ _
  obtain ⟨closed', inside⟩ := closed_placeEntries closed held
  refine ⟨_, (placeEntries s entries).1, inner, ?_, ?_, ?_⟩
  · exact grown.deref?_of_some (Store.deref?_alloc _ _)
  · exact keys_of_entriesStandAt (entriesStandAt_placeEntries entries s)
  · rw [← unfold_placeEntries closed (.refl s) closed held]
    refine List.map_congr_left fun e member => ?_
    rw [closed'.unfold_of_extends (first.trans grown) (inside e member).1,
      closed'.unfold_of_extends (first.trans grown) (inside e member).2]

theorem exists_named {entries : List (Value × Value)} {names : List Text}
    (keys : entries.map Prod.fst = names.map .ofText) :
    ∃ named : List (Text × Value), named.map Prod.fst = names ∧
      entries = named.map fun e => (.ofText e.1, e.2) := by
  induction entries generalizing names with
  | nil =>
    obtain rfl := List.map_eq_nil_iff.mp keys.symm
    exact ⟨[], rfl, rfl⟩
  | cons e entries ih =>
    cases names with
    | nil => cases keys
    | cons name names =>
      obtain ⟨key, later⟩ := List.cons.inj keys
      obtain ⟨named, same, rfl⟩ := ih later
      exact ⟨(name, e.2) :: named, by rw [List.map_cons, same], by rw [List.map_cons, ← key]⟩

namespace AcceptedSchema

variable {s : Store} {t t' : AcceptedSchema} {v v' : Value}

/-- Where the definition of a schema is placed, it has a descriptor for each emitted field, and these
show what the properties show. -/
theorem LiesAt.exists_descriptors (closed : s.Closed) (held : t.LiesAt s v) :
    ∃ descriptors, t.HasDescriptors (t.definition.shape.place s).2
        (t.definition.shape.place s).1 descriptors ∧
      descriptors.map (fun e =>
          (s.unfold (.ofText e.1), (t.definition.shape.place s).2.unfold e.2)) =
        Shape.treeEntries s (Property.entriesOf t.collected.properties) := by
  have source := (held.takes_definition closed).heldBy_of_isPlainScalar
  obtain ⟨p, values, cell, cell', keys, shown⟩ :=
    Shape.exists_entries_of_place closed source.of_map.head.of_map
  have keys : values.map Prod.fst = (t.selected.map Prod.fst).map .ofText := by
    rw [keys, t.keys_properties, List.map_map]
    rfl
  obtain ⟨descriptors, names, rfl⟩ := exists_named keys
  refine ⟨descriptors, ⟨names, p, cell, cell'⟩, ?_⟩
  rw [← shown, List.map_map]
  rfl

/-! ## More fields that are only to be read -/

theorem unlocked_unlocked (more : t.readonlyNames ⊆ t'.readonlyNames)
    (descriptors : List (Text × Value)) :
    t'.unlocked (t.unlocked descriptors) = t'.unlocked descriptors := by
  rw [unlocked, unlocked, unlocked, List.filter_filter]
  refine List.filter_congr fun e _ => ?_
  by_cases locked : e.1 ∈ t'.readonlyNames
  · simp [locked]
  · simp [locked, mt (@more e.1) locked]

/-- Descriptors that show the same under the same names still do so when some are left out by their
names. -/
theorem map_unlocked_congr {descriptors descriptors' : List (Text × Value)} {f f' : Value → Tree}
    (same : descriptors.map (fun e => (s.unfold (.ofText e.1), f e.2)) =
      descriptors'.map fun e => (s.unfold (.ofText e.1), f' e.2)) :
    (t.unlocked descriptors).map (fun e => f e.2) =
      (t.unlocked descriptors').map fun e => f' e.2 := by
  -- A name is known from what it shows, so it can be compared with the names that are left out.
  have injective : Function.Injective fun x : Text × Tree => (s.unfold (.ofText x.1), x.2) := by
    rintro ⟨name, tree⟩ ⟨name', tree'⟩ same
    obtain ⟨key, rfl⟩ := Prod.mk.inj same
    exact Prod.ext (Scalar.string.inj (Tree.scalar.inj key)) rfl
  have named : descriptors.map (fun e => (e.1, f e.2)) =
      descriptors'.map fun e => (e.1, f' e.2) := by
    refine List.map_injective_iff.mpr injective ?_
    rw [List.map_map, List.map_map]
    exact same
  have filtered (l : List (Text × Value)) (f : Value → Tree) :
      (t.unlocked l).map (fun e => f e.2) =
        ((l.map fun e => (e.1, f e.2)).filter fun e => !t.readonlyNames.contains e.1).map
          Prod.snd := by
    rw [List.filter_map, List.map_map]
    rfl
  rw [filtered, filtered, named]

/-- The fields have other flags. -/
def reflagged (readonly : Text → Bool) : AcceptedSchema → AcceptedSchema
  | .done => .done
  | .field name tag options rest =>
    .field name tag { options with readonly := readonly name } (rest.reflagged readonly)

/-- Flags do not matter to what a normalization makes of the fields. -/
theorem alike_reflagged (s : Store) (readonly : Text → Bool) (t : AcceptedSchema) :
    t.Alike s (t.reflagged readonly) := by
  induction t using AcceptedSchema.fields.induct with
  | case1 => exact .done
  | case2 name tag options rest later =>
    have modify : options.Alike s tag { options with readonly := readonly name } :=
      ⟨rfl, rfl, rfl, .inl rfl, .inl rfl, fun _ => rfl⟩
    exact .field (.refl s tag) (fun _ => modify) later

/-- With more fields that are only to be read, the definition is the same, and of the descriptors
that were left those of the additional fields are deleted. -/
structure WritesLess (t t' : AcceptedSchema) (u u' : Store) (d d' v v' : Value) : Prop where
  same_definition : u.unfold d = u'.unfold d'
  deleted : ∃ descriptors left, t.HasDescriptors u d descriptors ∧
    u.writableProperties d v = .ok ((t.unlocked descriptors).map Prod.snd) ∧
    u'.writableProperties d' v' = .ok left ∧
    left.map u'.unfold = (t'.unlocked (t.unlocked descriptors)).map fun e => u.unfold e.2

theorem LiesAt.writesLess (closed : s.Closed) (held : t.LiesAt s v) (held' : t'.LiesAt s v')
    (alike : t.Alike s t') (more : t.readonlyNames ⊆ t'.readonlyNames) :
    t.WritesLess t' (t.definition.shape.place s).2 (t'.definition.shape.place s).2
      (t.definition.shape.place s).1 (t'.definition.shape.place s).1 v v' := by
  obtain ⟨descriptors, has, shown⟩ := held.exists_descriptors closed
  obtain ⟨descriptors', has', shown'⟩ := held'.exists_descriptors closed
  have asked := has.writableProperties_eq (held.mono closed (Shape.extends_place _ _))
  have asked' := has'.writableProperties_eq (held'.mono closed (Shape.extends_place _ _))
  refine ⟨?_, descriptors, _, has, asked, asked', ?_⟩
  · calc (t.definition.shape.place s).2.unfold (t.definition.shape.place s).1
        = t.definition.shape.tree s := Shape.unfold_place closed (.refl s) closed
          (held.takes_definition closed).heldBy_of_isPlainScalar
      _ = t'.definition.shape.tree s := alike.tree_definition
      _ = _ := (Shape.unfold_place closed (.refl s) closed
          (held'.takes_definition closed).heldBy_of_isPlainScalar).symm
  · rw [← alike.shown_properties, ← shown] at shown'
    rw [unlocked_unlocked more, List.map_map]
    exact map_unlocked_congr shown'

/-- What becomes of a definition when its schema is asked for the properties that may be written. -/
structure DropsReadonly (s : Store) (t : AcceptedSchema) (v : Value) : Prop where
  /-- Of its own definition the descriptors of the emitted fields are left that are not only to be
  read, in the order declared. -/
  own : ∀ name j shape, (s.definitionOf v name j).1 = .ok shape →
    ∃ descriptors, t.HasDescriptors (shape.place s).2 (shape.place s).1 descriptors ∧
      (t.unlocked descriptors).map Prod.fst = t.writable.map Prod.fst ∧
      (shape.place s).2.writableProperties (shape.place s).1 v =
        .ok ((t.unlocked descriptors).map Prod.snd)
  /-- Flags have no influence on the definition, and more of them leave less. -/
  fewer : ∀ (t' : AcceptedSchema) v' name name' j j' shape shape', t'.LiesAt s v' →
    t.Alike s t' → t.readonlyNames ⊆ t'.readonlyNames →
    (s.definitionOf v name j).1 = .ok shape → (s.definitionOf v' name' j').1 = .ok shape' →
    t.WritesLess t' (shape.place s).2 (shape'.place s).2 (shape.place s).1 (shape'.place s).1 v v'
  /-- Of any definition the properties are left whose keys are not locked. -/
  given : ∀ d p entries properties, s.deref? d = some (.map entries) →
    lookupText? entries (text "properties") = some p → s.deref? p = some (.map properties) →
    s.writableProperties d v = .ok ((properties.filter fun e => !t.locks e.1).map Prod.snd)
  /-- A key that is the name of no field is not locked. -/
  unnamed : ∀ key : Value, (∀ name ∈ t.names, key.asText? ≠ some name) → t.locks key = false

end AcceptedSchema

/-- An accepted schema in a closed store leaves the properties that are not only to be read. -/
theorem readonly_properties_are_dropped {s : Store} {t : AcceptedSchema} {v : Value}
    (closed : s.Closed) (held : t.LiesAt s v) : t.DropsReadonly s v where
  own name j shape made := by
    obtain rfl := held.eq_of_definitionOf made
    obtain ⟨descriptors, has, -⟩ := held.exists_descriptors closed
    exact ⟨descriptors, has, has.names_unlocked,
      has.writableProperties_eq (held.mono closed (Shape.extends_place _ _))⟩
  fewer t' v' name name' j j' shape shape' held' alike more made made' := by
    obtain rfl := held.eq_of_definitionOf made
    obtain rfl := held'.eq_of_definitionOf made'
    exact held.writesLess closed held' alike more
  given _ _ _ _ cell found cell' := held.writableProperties_eq cell found cell'
  unnamed _ := AcceptedSchema.locks_of_unnamed

namespace WritableSample

open AlikeSample (declaration)

/-- Options of a field that is only to be read. -/
def locked : Options := { NestedSample.options with readonly := true }

/-- An id that is only to be read, two fields that may be written, data that map to nothing and a
private field. -/
def schema : AcceptedSchema :=
  .field (text "id") (.plain (.scalar (.fieldType .number))) locked <|
  .field (text "name") (.plain (.scalar (.fieldType .string))) NestedSample.options <|
  .field (text "data") (.plain (.scalar (.fieldType .object))) NestedSample.options <|
  .field (text "age") (.plain (.scalar (.fieldType .number))) NestedSample.options <|
  .field (text "__v") (.plain (.scalar (.fieldType .number))) NestedSample.options .done

/-- The same fields, of which only the age may be written. -/
def otherSchema : AcceptedSchema := schema.reflagged (· != text "age")

/-- A store that holds the two schemas and a definition with a property of no field. -/
def store : Store where
  cells := #[
    .list [],
    .field (declaration (.scalar (.fieldType .number)) locked),
    .field (declaration (.scalar (.fieldType .string)) NestedSample.options),
    .field (declaration (.scalar (.fieldType .object)) NestedSample.options),
    .field (declaration (.scalar (.fieldType .number)) NestedSample.options),
    .map [(.ofText (text "id"), .ref 1), (.ofText (text "name"), .ref 2),
      (.ofText (text "data"), .ref 3), (.ofText (text "age"), .ref 4),
      (.ofText (text "__v"), .ref 4)],
    .schema (.ref 5),
    .field (declaration (.scalar (.fieldType .string)) locked),
    .field (declaration (.scalar (.fieldType .object)) locked),
    .map [(.ofText (text "id"), .ref 1), (.ofText (text "name"), .ref 7),
      (.ofText (text "data"), .ref 8), (.ofText (text "age"), .ref 4),
      (.ofText (text "__v"), .ref 1)],
    .schema (.ref 9),
    .map [(.ofText (text "extra"), .scalar (.int 1)), (.ofText (text "id"), .scalar (.int 2)),
      (.scalar (.int 3), .scalar (.int 3))],
    .map [(.ofText (text "properties"), .ref 11)]]
  labels := 1
  given := []

theorem closed : store.Closed := Store.closed_of_cells rfl (by decide)

theorem lieIn (tag : Value) {o : Options} (none : o.choices = []) :
    o.LieIn store (declaration tag o) :=
  ⟨rfl, rfl, rfl, by rw [none]; rfl, rfl, rfl, rfl, rfl⟩

theorem liesAt : schema.LiesAt store (.ref 6) := by
  refine ⟨_, rfl, ?_⟩
  refine ⟨_, _, _, rfl, rfl, ⟨rfl, nofun, rfl⟩, lieIn _ rfl, by decide, ?_⟩
  refine ⟨_, _, _, rfl, rfl, ⟨rfl, nofun, rfl⟩, lieIn _ rfl, by decide, ?_⟩
  refine ⟨_, _, _, rfl, rfl, ⟨rfl, nofun, rfl⟩, lieIn _ rfl, by decide, ?_⟩
  refine ⟨_, _, _, rfl, rfl, ⟨rfl, nofun, rfl⟩, lieIn _ rfl, by decide, ?_⟩
  exact ⟨_, _, _, rfl, rfl, ⟨rfl, nofun, rfl⟩, lieIn _ rfl, by decide, rfl⟩

theorem other_liesAt : otherSchema.LiesAt store (.ref 10) := by
  refine ⟨_, rfl, ?_⟩
  refine ⟨_, _, _, rfl, rfl, ⟨rfl, nofun, rfl⟩, lieIn _ rfl, by decide, ?_⟩
  refine ⟨_, _, _, rfl, rfl, ⟨rfl, nofun, rfl⟩, lieIn _ rfl, by decide, ?_⟩
  refine ⟨_, _, _, rfl, rfl, ⟨rfl, nofun, rfl⟩, lieIn _ rfl, by decide, ?_⟩
  refine ⟨_, _, _, rfl, rfl, ⟨rfl, nofun, rfl⟩, lieIn _ rfl, by decide, ?_⟩
  exact ⟨_, _, _, rfl, rfl, ⟨rfl, nofun, rfl⟩, lieIn _ rfl, by decide, rfl⟩

theorem made : (store.definitionOf (.ref 6) [] ⟨none, []⟩).1 = .ok schema.definition.shape := by
  rw [liesAt.definitionOf_eq []]
  rfl

theorem other_made :
    (store.definitionOf (.ref 10) [] ⟨none, []⟩).1 = .ok otherSchema.definition.shape := by
  rw [other_liesAt.definitionOf_eq []]
  rfl

end WritableSample

open WritableSample in
/-- In the sample the name and the age are left, and with more flags the age alone; a property of no
field is left in any case. -/
theorem readonly_properties_of_sample :
    schema.writable.map Prod.fst = [text "name", text "age"] ∧
      otherSchema.writable.map Prod.fst = [text "age"] ∧
      schema.WritesLess otherSchema (schema.definition.shape.place store).2
        (otherSchema.definition.shape.place store).2 (schema.definition.shape.place store).1
        (otherSchema.definition.shape.place store).1 (.ref 6) (.ref 10) ∧
      store.writableProperties (.ref 12) (.ref 6) = .ok [.scalar (.int 1), .scalar (.int 3)] := by
  have drops := readonly_properties_are_dropped closed liesAt
  refine ⟨by decide, by decide, ?_, ?_⟩
  · exact drops.fewer otherSchema (.ref 10) [] [] ⟨none, []⟩ ⟨none, []⟩ _ _ other_liesAt
      (schema.alike_reflagged store _) (by decide) made other_made
  · exact drops.given (.ref 12) (.ref 11) _ _ rfl rfl rfl

end SwaggerDoc
