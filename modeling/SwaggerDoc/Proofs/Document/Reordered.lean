import SwaggerDoc.Proofs.Definition.Trace
import SwaggerDoc.Proofs.Document.Alike

/-!
Schemas whose fields stand in another order.

`AcceptedSchema.Reordered` says that two schemas hold the same fields, at every depth in any order.
Exchanging two fields exchanges what the visits to them lead to, and nothing else, since no visit
depends on another: the definitions show the same up to the order of keys, and the fallbacks that
are noted are a permutation (`field_order_has_no_influence`).
-/

namespace SwaggerDoc

/-! ## Another order -/

mutual

/-- The types are the same, apart from the order of the fields in a schema that a list begins
with. Values with parts that are no lists may be any two, since nothing is made of them. -/
inductive AcceptedTag.Reordered (s : Store) : AcceptedTag → AcceptedTag → Prop
  | nested {element element' : AcceptedSchema} :
    AcceptedSchema.Reordered s element element' →
    AcceptedTag.Reordered s (.nested element) (.nested element')
  | list : AcceptedTag.Reordered s .list .list
  | plain (v : Value) : AcceptedTag.Reordered s (.plain v) (.plain v)
  | ref (p q : Place) : AcceptedTag.Reordered s (.plain (.ref p)) (.plain (.ref q))

/-- The schemas have the same fields in any order. Options are the same if they modify alike. -/
inductive AcceptedSchema.Reordered (s : Store) : AcceptedSchema → AcceptedSchema → Prop
  | done : AcceptedSchema.Reordered s .done .done
  | field {name : Text} {tag tag' : AcceptedTag} {options options' : Options}
    {rest rest' : AcceptedSchema} :
    AcceptedTag.Reordered s tag tag' → options.Alike s tag options' →
    AcceptedSchema.Reordered s rest rest' →
    AcceptedSchema.Reordered s (.field name tag options rest) (.field name tag' options' rest')
  | swap {name name' : Text} {tag tag' : AcceptedTag} {options options' : Options}
    {rest : AcceptedSchema} :
    AcceptedSchema.Reordered s (.field name tag options (.field name' tag' options' rest))
      (.field name' tag' options' (.field name tag options rest))
  | trans {t t' t'' : AcceptedSchema} :
    AcceptedSchema.Reordered s t t' → AcceptedSchema.Reordered s t' t'' →
    AcceptedSchema.Reordered s t t''

end

mutual

/-- The trees are the same, apart from the order of keys at any depth. -/
inductive Tree.SameInAnyOrder : Tree → Tree → Prop
  | refl (t : Tree) : Tree.SameInAnyOrder t t
  | map {entries entries' : List (Tree × Tree)} :
    Tree.EntriesInAnyOrder entries entries' → Tree.SameInAnyOrder (.map entries) (.map entries')

/-- The entries are the same in any order, with values that are. -/
inductive Tree.EntriesInAnyOrder : List (Tree × Tree) → List (Tree × Tree) → Prop
  | nil : Tree.EntriesInAnyOrder [] []
  | cons (key : Tree) {v v' : Tree} {rest rest' : List (Tree × Tree)} :
    Tree.SameInAnyOrder v v' → Tree.EntriesInAnyOrder rest rest' →
    Tree.EntriesInAnyOrder ((key, v) :: rest) ((key, v') :: rest')
  | swap (e e' : Tree × Tree) (rest : List (Tree × Tree)) :
    Tree.EntriesInAnyOrder (e :: e' :: rest) (e' :: e :: rest)
  | trans {entries entries' entries'' : List (Tree × Tree)} :
    Tree.EntriesInAnyOrder entries entries' → Tree.EntriesInAnyOrder entries' entries'' →
    Tree.EntriesInAnyOrder entries entries''

end

/-! ## Trees in any order -/

namespace Tree.EntriesInAnyOrder

variable {entries entries' front front' : List (Tree × Tree)}

theorem of_perm (perm : entries.Perm entries') : EntriesInAnyOrder entries entries' := by
  induction perm with
  | nil => exact .nil
  | cons e _ ih => exact .cons e.1 (.refl e.2) ih
  | swap e e' rest => exact .swap e' e rest
  | trans _ _ first second => exact .trans first second

theorem refl (entries : List (Tree × Tree)) : EntriesInAnyOrder entries entries :=
  of_perm (.refl entries)

theorem append_right : {front front' : List (Tree × Tree)} → EntriesInAnyOrder front front' →
    (rest : List (Tree × Tree)) → EntriesInAnyOrder (front ++ rest) (front' ++ rest)
  | _, _, .nil, rest => refl rest
  | _, _, .cons key same later, rest => .cons key same (append_right later rest)
  | _, _, .swap e e' others, rest => .swap e e' (others ++ rest)
  | _, _, .trans first second, rest => (append_right first rest).trans (append_right second rest)

theorem append_left (same : EntriesInAnyOrder entries entries') :
    (front : List (Tree × Tree)) → EntriesInAnyOrder (front ++ entries) (front ++ entries')
  | [] => same
  | e :: front => .cons e.1 (.refl e.2) (append_left same front)

theorem append (first : EntriesInAnyOrder front front') (later : EntriesInAnyOrder entries entries') :
    EntriesInAnyOrder (front ++ entries) (front' ++ entries') :=
  (first.append_right entries).trans (later.append_left front')

end Tree.EntriesInAnyOrder

/-! ## The same visits in another order -/

section Visits

variable {s : Store}

/-- The visits to one field: none if it is private. -/
def AcceptedTag.fieldVisits (definition field : Text) (tag : AcceptedTag) (options : Options) :
    List Visit :=
  if isPrivate field then []
  else tag.visits (nestedName definition field) ++ [⟨definition, field, tag, options⟩]

theorem AcceptedSchema.visits_field (definition field : Text) (tag : AcceptedTag)
    (options : Options) (rest : AcceptedSchema) :
    (AcceptedSchema.field field tag options rest).visits definition =
      tag.fieldVisits definition field options ++ rest.visits definition := by
  rw [visits, AcceptedTag.fieldVisits]
  split
  · rfl
  · simp

/-- Types that are reordered are alike, as far as a visit itself goes. -/
theorem AcceptedTag.Reordered.outcome_eq {definition field : Text} {tag tag' : AcceptedTag}
    {o o' : Options} (reordered : tag.Reordered s tag') (modify : o.Alike s tag o') :
    Visit.outcome ⟨definition, field, tag, o⟩ = Visit.outcome ⟨definition, field, tag', o'⟩ := by
  refine Visit.outcome_congr ?_ ?_ ?_ fun _ => modify.isOversized_eq <;> cases reordered <;> rfl

mutual

theorem AcceptedTag.Reordered.visits_perm (name : Text) : {t t' : AcceptedTag} →
    t.Reordered s t' →
      ((t.visits name).map Visit.outcome).Perm ((t'.visits name).map Visit.outcome)
  | _, _, .nested inside => AcceptedSchema.Reordered.visits_perm name inside
  | _, _, .list | _, _, .plain _ | _, _, .ref _ _ => .refl _

/-- Schemas that are reordered lead through visits with the same outcomes in another order. -/
theorem AcceptedSchema.Reordered.visits_perm (name : Text) : {t t' : AcceptedSchema} →
    t.Reordered s t' →
      ((t.visits name).map Visit.outcome).Perm ((t'.visits name).map Visit.outcome)
  | _, _, .done => .refl _
  | .field field .., _, .field type modify reordered => by
    have later := AcceptedSchema.Reordered.visits_perm name reordered
    have inner := AcceptedTag.Reordered.visits_perm (nestedName name field) type
    rw [AcceptedSchema.visits_field, AcceptedSchema.visits_field, List.map_append, List.map_append]
    refine List.Perm.append ?_ later
    unfold AcceptedTag.fieldVisits
    split
    · exact .refl _
    · rw [List.map_append, List.map_append, List.map_singleton, List.map_singleton,
        type.outcome_eq modify]
      exact inner.append_right _
  | _, _, .swap => by
    -- Each field is a block of visits, and the two blocks change places.
    simp only [AcceptedSchema.visits_field, List.map_append]
    exact List.perm_append_comm_assoc _ _ _
  | _, _, .trans first second =>
    (AcceptedSchema.Reordered.visits_perm name first).trans
      (AcceptedSchema.Reordered.visits_perm name second)

end

end Visits

/-! ## Definitions in any order -/

open Shape
open SwaggerDoc.Tree

section Shown

variable {s : Store}

/-- The kinds show the same in any order. -/
structure Kind.ShowsInAnyOrder (s : Store) (kind kind' : Kind) : Prop where
  entries : EntriesInAnyOrder (shown s kind.entries) (shown s kind'.entries)
  fallbackType : kind.fallbackType = kind'.fallbackType

theorem Kind.ShowsLike.inAnyOrder {kind kind' : Kind} (same : kind.ShowsLike s kind') :
    kind.ShowsInAnyOrder s kind' :=
  ⟨same.entries ▸ .refl _, same.fallbackType⟩

theorem Kind.rel_inAnyOrder {kind? kind?' : Option Kind}
    (same : Option.Rel (ShowsLike s) kind? kind?') : Option.Rel (ShowsInAnyOrder s) kind? kind?' := by
  cases same with
  | none => exact .none
  | some same => exact .some same.inAnyOrder

theorem Options.Alike.property_inAnyOrder {tag : AcceptedTag} {o o' : Options} {kind kind' : Kind}
    (alike : o.Alike s tag o') (same : kind.ShowsInAnyOrder s kind') :
    ((o.property kind).shape.tree s).SameInAnyOrder ((o'.property kind').shape.tree s) := by
  simp only [property, Property.shape, tree_record, shown_append, same.fallbackType,
    alike.describing?_eq, alike.allowable_eq, alike.shown_example, List.append_assoc]
  exact .map (same.entries.append_right _)

/-- What properties show. -/
def Property.shown (s : Store) (properties : List (Name × Property)) : List (Tree × Tree) :=
  properties.map fun p => (s.unfold (.scalar p.1.scalar), p.2.shape.tree s)

theorem Property.treeEntries_entriesOf (properties : List (Name × Property)) :
    treeEntries s (entriesOf properties) = shown s properties := by
  induction properties with
  | nil => rfl
  | cons p rest ih => rw [entriesOf, treeEntries, ih, shown, shown, List.map_cons]

/-- Definitions show the same in any order if their properties do. -/
theorem AcceptedSchema.definition_inAnyOrder {t t' : AcceptedSchema}
    (same : EntriesInAnyOrder (Property.shown s t.collected.properties)
      (Property.shown s t'.collected.properties)) :
    (t.definition.shape.tree s).SameInAnyOrder (t'.definition.shape.tree s) := by
  simp only [definition, Collected.definition, Definition.shape, tree_record, Shape.shown,
    List.map_cons, List.map_nil, tree, Property.treeEntries_entriesOf]
  exact .map (.cons _ (.map same) .nil)

/-- The property of one field: none if the field is private or its type maps to nothing. -/
def AcceptedTag.fieldProperties (field : Text) (tag : AcceptedTag) (options : Options) :
    List (Name × Property) :=
  if isPrivate field then []
  else ((tag.kind? options.targetText).map fun kind => (.text field, options.property kind)).toList

theorem AcceptedSchema.properties_field (field : Text) (tag : AcceptedTag) (options : Options)
    (rest : AcceptedSchema) :
    (AcceptedSchema.field field tag options rest).collected.properties =
      tag.fieldProperties field options ++ rest.collected.properties := by
  rw [collected, AcceptedTag.fieldProperties]
  split
  · rfl
  · cases tag.kind? options.targetText <;> rfl

mutual

theorem AcceptedTag.Reordered.kind?_inAnyOrder {target target' : Text} : {t t' : AcceptedTag} →
    t.Reordered s t' → (t.reference?.isSome → target = target') →
      Option.Rel (Kind.ShowsInAnyOrder s) (t.kind? target) (t'.kind? target')
  | .nested element, .nested element', .nested inside, _ => by
    have same := AcceptedSchema.Reordered.properties_inAnyOrder inside
    have items := AcceptedSchema.definition_inAnyOrder same
    exact .some ⟨.cons _ (.refl _) (.cons _ items .nil), rfl⟩
  | _, _, .list, _ => .some ⟨.refl _, rfl⟩
  | _, _, .plain (.scalar (.fieldType t)), same => Kind.rel_inAnyOrder (t.showsLike_kind? same)
  | _, _, .plain (.scalar .null), _ | _, _, .plain (.scalar (.bool _)), _
  | _, _, .plain (.scalar (.int _)), _ | _, _, .plain (.scalar (.float _)), _
  | _, _, .plain (.scalar (.string _)), _ | _, _, .plain (.scalar (.octets _)), _
  | _, _, .plain (.scalar (.method _)), _ | _, _, .plain (.ref _), _ | _, _, .ref _ _, _ => .none

/-- The properties of reordered schemas show the same in any order. -/
theorem AcceptedSchema.Reordered.properties_inAnyOrder : {t t' : AcceptedSchema} →
    t.Reordered s t' → EntriesInAnyOrder (Property.shown s t.collected.properties)
      (Property.shown s t'.collected.properties)
  | _, _, .done => .nil
  | .field _ tag options _, .field _ tag' options' _, .field type modify reordered => by
    have later := AcceptedSchema.Reordered.properties_inAnyOrder reordered
    have kinds := AcceptedTag.Reordered.kind?_inAnyOrder type modify.targetText_eq
    rw [AcceptedSchema.properties_field, AcceptedSchema.properties_field, Property.shown,
      Property.shown, List.map_append, List.map_append]
    refine .append ?_ later
    unfold AcceptedTag.fieldProperties
    split
    · exact .nil
    · generalize tag.kind? options.targetText = kind? at kinds ⊢
      generalize tag'.kind? options'.targetText = kind?' at kinds ⊢
      cases kinds with
      | none => exact .nil
      | some same => exact .cons _ (modify.property_inAnyOrder same) .nil
  | _, _, .swap => by
    simp only [AcceptedSchema.properties_field, Property.shown, List.map_append]
    exact .of_perm (List.perm_append_comm_assoc _ _ _)
  | _, _, .trans first second =>
    (AcceptedSchema.Reordered.properties_inAnyOrder first).trans
      (AcceptedSchema.Reordered.properties_inAnyOrder second)

end

end Shown

/-! ## The same outcome in any order -/

section Runs

variable {s u u' : Store}

/-- A pass comes to its end if no visit leads to a fault. -/
theorem Visit.returns_iff {α : Type} (a : α) (xs : List Visit) (j : Journal) :
    (∃ b, (pass a xs j).1 = .ok b) ↔ ∀ o ∈ xs.map outcome, o.1 = none := by
  rw [pass_apply, List.forall_mem_map]
  cases stops : xs.findSome? fault? with
  | some fault =>
    obtain ⟨x, member, failed⟩ := List.exists_of_findSome?_eq_some stops
    simp only [Option.elim_some, reduceCtorEq, exists_false, false_iff]
    intro passed
    exact Option.some_ne_none fault (failed.symm.trans (passed x member))
  | none => simpa [outcome] using stops

theorem Visit.filterMap_outcome (xs : List Visit) :
    (xs.map outcome).filterMap Prod.snd = xs.filterMap fallback? := by
  rw [List.filterMap_map]
  rfl

/-- Schemas with the same fields in any order both lead to a definition or both lead to none. The
definitions are the same up to the order of keys, and the fallbacks noted up to their order. The
stores of the two runs may have more than the schemas, such as the outcome of the other run. -/
theorem field_order_has_no_influence (closed : s.Closed) (left : s.Extends u)
    (right : s.Extends u') (closedLeft : u.Closed) (closedRight : u'.Closed)
    {t t' : AcceptedSchema} {v v' : Value} (lies : t.LiesAt s v) (lies' : t'.LiesAt s v')
    (reordered : t.Reordered s t') (name : Text) (j j' : Journal) :
    ((∃ shape, (u.definitionOf v name j).1 = .ok shape) ↔
        ∃ shape, (u'.definitionOf v' name j').1 = .ok shape) ∧
      ∀ shape shape', (u.definitionOf v name j).1 = .ok shape →
        (u'.definitionOf v' name j').1 = .ok shape' →
          ((shape.place u).2.unfold (shape.place u).1).SameInAnyOrder
              ((shape'.place u').2.unfold (shape'.place u').1) ∧
            ∃ fs gs, fs.Perm gs ∧ (u.definitionOf v name j).2 = j.noteAll fs ∧
              (u'.definitionOf v' name j').2 = j'.noteAll gs := by
  have perm := reordered.visits_perm name
  rw [(lies.mono closed left).definitionOf_eq, (lies'.mono closed right).definitionOf_eq]
  constructor
  · rw [Visit.returns_iff, Visit.returns_iff]
    exact forall_congr' fun _ => by rw [perm.mem_iff]
  · intro shape shape' made made'
    obtain ⟨rfl, -, noted⟩ := Visit.exists_of_pass (Prod.ext made rfl)
    obtain ⟨rfl, -, noted'⟩ := Visit.exists_of_pass (Prod.ext made' rfl)
    constructor
    · have held := (lies.takes_definition closed).heldBy_of_isPlainScalar
      have held' := (lies'.takes_definition closed).heldBy_of_isPlainScalar
      rw [unfold_place closed left closedLeft held, unfold_place closed right closedRight held']
      exact AcceptedSchema.definition_inAnyOrder reordered.properties_inAnyOrder
    · have fallbacks := perm.filterMap Prod.snd
      rw [Visit.filterMap_outcome, Visit.filterMap_outcome] at fallbacks
      exact ⟨_, _, fallbacks, noted, noted'⟩

end Runs

namespace ReorderedSample

open NestedSample (options declaration options_lieIn)

def kind (rest : AcceptedSchema) : AcceptedSchema :=
  .field (text "kind") (.plain (.scalar (.fieldType .objectId))) options rest

def size (rest : AcceptedSchema) : AcceptedSchema :=
  .field (text "size") (.plain (.scalar (.fieldType .number))) options rest

def owner (rest : AcceptedSchema) : AcceptedSchema :=
  .field (text "owner") (.plain (.scalar (.fieldType .oid))) options rest

/-- A list of a schema and a reference. -/
def schema : AcceptedSchema :=
  .field (text "team") (.nested (kind (size .done))) options (owner .done)

/-- The reference stands first, and so does the other field of the inner schema. -/
def otherSchema : AcceptedSchema :=
  owner (.field (text "team") (.nested (size (kind .done))) options .done)

/-- A store that holds the schemas. -/
def store : Store where
  cells := #[
    .list [],
    .field (declaration (.scalar (.fieldType .objectId))),
    .field (declaration (.scalar (.fieldType .number))),
    .field (declaration (.scalar (.fieldType .oid))),
    .map [(.ofText (text "kind"), .ref 1), (.ofText (text "size"), .ref 2)],
    .schema (.ref 4),
    .list [.ref 5],
    .field (declaration (.ref 6)),
    .map [(.ofText (text "team"), .ref 7), (.ofText (text "owner"), .ref 3)],
    .schema (.ref 8),
    .map [(.ofText (text "size"), .ref 2), (.ofText (text "kind"), .ref 1)],
    .schema (.ref 10),
    .list [.ref 11],
    .field (declaration (.ref 12)),
    .map [(.ofText (text "owner"), .ref 3), (.ofText (text "team"), .ref 13)],
    .schema (.ref 14)]
  labels := 1
  given := []

theorem schema_liesAt : schema.LiesAt store (.ref 9) := by
  refine ⟨_, rfl, ?_⟩
  refine ⟨_, _, _, rfl, rfl, ⟨_, _, _, rfl, rfl, ?_⟩, options_lieIn rfl _, by decide, ?_⟩
  · refine ⟨_, _, _, rfl, rfl, ⟨rfl, nofun, rfl⟩, options_lieIn rfl _, by decide, ?_⟩
    exact ⟨_, _, _, rfl, rfl, ⟨rfl, nofun, rfl⟩, options_lieIn rfl _, by decide, rfl⟩
  · exact ⟨_, _, _, rfl, rfl, ⟨rfl, nofun, rfl⟩, options_lieIn rfl _, by decide, rfl⟩

theorem other_liesAt : otherSchema.LiesAt store (.ref 15) := by
  refine ⟨_, rfl, ?_⟩
  refine ⟨_, _, _, rfl, rfl, ⟨rfl, nofun, rfl⟩, options_lieIn rfl _, by decide, ?_⟩
  refine ⟨_, _, _, rfl, rfl, ⟨_, _, _, rfl, rfl, ?_⟩, options_lieIn rfl _, by decide, rfl⟩
  refine ⟨_, _, _, rfl, rfl, ⟨rfl, nofun, rfl⟩, options_lieIn rfl _, by decide, ?_⟩
  exact ⟨_, _, _, rfl, rfl, ⟨rfl, nofun, rfl⟩, options_lieIn rfl _, by decide, rfl⟩

theorem closed : store.Closed := Store.closed_of_cells rfl (by decide)

theorem reordered : schema.Reordered store otherSchema :=
  .trans (.field (.nested .swap) (.refl _ _ _) (.field (.plain _) (.refl _ _ _) .done)) .swap

end ReorderedSample

open ReorderedSample in
/-- In the sample both orders lead to a definition, and two fallbacks are noted in either order. -/
theorem field_order_of_sample :
    (store.definitionOf (.ref 9) (text "M") ⟨some [], []⟩).1 = .ok schema.definition.shape ∧
      (store.definitionOf (.ref 15) (text "M") ⟨some [], []⟩).1 =
        .ok otherSchema.definition.shape ∧
      ((schema.definition.shape.place store).2.unfold
          (schema.definition.shape.place store).1).SameInAnyOrder
        ((otherSchema.definition.shape.place store).2.unfold
          (otherSchema.definition.shape.place store).1) ∧
      (store.definitionOf (.ref 9) (text "M") ⟨some [], []⟩).2.kept =
        some [⟨text "M.team", text "kind", text "ObjectId"⟩, ⟨text "M", text "owner", text "Oid"⟩] ∧
      (store.definitionOf (.ref 15) (text "M") ⟨some [], []⟩).2.kept =
        some [⟨text "M", text "owner", text "Oid"⟩, ⟨text "M.team", text "kind", text "ObjectId"⟩] := by
  have made : (store.definitionOf (.ref 9) (text "M") ⟨some [], []⟩).1 =
      .ok schema.definition.shape := by
    rw [schema_liesAt.definitionOf_eq (text "M")]
    rfl
  have made' : (store.definitionOf (.ref 15) (text "M") ⟨some [], []⟩).1 =
      .ok otherSchema.definition.shape := by
    rw [other_liesAt.definitionOf_eq (text "M")]
    rfl
  obtain ⟨-, same⟩ := field_order_has_no_influence closed (.refl store) (.refl store) closed closed
    schema_liesAt other_liesAt reordered (text "M") ⟨some [], []⟩ ⟨some [], []⟩
  refine ⟨made, made', (same _ _ made made').1, ?_, ?_⟩
  · rw [schema_liesAt.definitionOf_eq (text "M")]
    decide
  · rw [other_liesAt.definitionOf_eq (text "M")]
    decide

end SwaggerDoc
