import SwaggerDoc.Proofs.Document.Compiling
import SwaggerDoc.Proofs.Schema.Kept
import SwaggerDoc.Proofs.Store.Placed

/-!
Schemas between which a normalization makes no difference.

`AcceptedSchema.Alike` says that two schemas have the same public fields, as far as these matter:
private fields, the flags of a field, the target of anything but a reference, all modifiers of what
maps to nothing, and what is no schema in a list tag are left open. Both schemas then lead through
the same visits to definitions that show the same (`irrelevant_parts_have_no_influence`).
-/

namespace SwaggerDoc

/-! ## What may differ -/

/-- The bounds are the same, or both are not-a-numbers. -/
def Check.Bound.Alike (b b' : Option Bound) : Prop :=
  b = b' ∨ ∃ m n, b = some (.real (.nan m)) ∧ b' = some (.real (.nan n))

/-- The options modify a field of the given type alike: the flags may differ, and so may the target
unless the field is a reference. Examples have to show the same. -/
structure Options.Alike (s : Store) (tag : AcceptedTag) (o o' : Options) : Prop where
  description : o.description = o'.description
  sample : s.unfold o.sample = s.unfold o'.sample
  choices : o.choices = o'.choices
  least : Check.Bound.Alike o.least o'.least
  greatest : Check.Bound.Alike o.greatest o'.greatest
  target : tag.reference?.isSome → o.target = o'.target

mutual

/-- The types map alike: what is no schema in a list does not matter, nor what a value with parts
is, if it is no list. -/
inductive AcceptedTag.Alike (s : Store) : AcceptedTag → AcceptedTag → Prop
  | nested {element element' : AcceptedSchema} :
    AcceptedSchema.Alike s element element' →
    AcceptedTag.Alike s (.nested element) (.nested element')
  | list : AcceptedTag.Alike s .list .list
  | scalar (x : Scalar) : AcceptedTag.Alike s (.plain (.scalar x)) (.plain (.scalar x))
  | ref (p q : Place) : AcceptedTag.Alike s (.plain (.ref p)) (.plain (.ref q))

/-- The schemas have the same public fields in the same order, with types that map alike and, where
these map to something, with options that modify alike. -/
inductive AcceptedSchema.Alike (s : Store) : AcceptedSchema → AcceptedSchema → Prop
  | done : AcceptedSchema.Alike s .done .done
  | left {name : Text} {tag : AcceptedTag} {options : Options} {rest t' : AcceptedSchema} :
    isPrivate name = true → AcceptedSchema.Alike s rest t' →
    AcceptedSchema.Alike s (.field name tag options rest) t'
  | right {name : Text} {tag : AcceptedTag} {options : Options} {t rest : AcceptedSchema} :
    isPrivate name = true → AcceptedSchema.Alike s t rest →
    AcceptedSchema.Alike s t (.field name tag options rest)
  | field {name : Text} {tag tag' : AcceptedTag} {options options' : Options}
    {rest rest' : AcceptedSchema} :
    AcceptedTag.Alike s tag tag' → ((tag.kind? []).isSome → options.Alike s tag options') →
    AcceptedSchema.Alike s rest rest' →
    AcceptedSchema.Alike s (.field name tag options rest) (.field name tag' options' rest')

end

theorem Options.Alike.refl (s : Store) (tag : AcceptedTag) (o : Options) : o.Alike s tag o :=
  ⟨rfl, rfl, rfl, .inl rfl, .inl rfl, fun _ => rfl⟩

mutual

theorem AcceptedTag.Alike.refl (s : Store) : (t : AcceptedTag) → t.Alike s t
  | .nested element => .nested (AcceptedSchema.Alike.refl s element)
  | .list => .list
  | .plain (.scalar x) => .scalar x
  | .plain (.ref p) => .ref p p

theorem AcceptedSchema.Alike.refl (s : Store) : (t : AcceptedSchema) → t.Alike s t
  | .done => .done
  | .field _ tag options rest =>
    .field (AcceptedTag.Alike.refl s tag) (fun _ => .refl s tag options)
      (AcceptedSchema.Alike.refl s rest)

end

/-! ## Bounds and options -/

section Options

variable {s : Store} {b b' : Option Check.Bound} {tag : AcceptedTag} {o o' : Options}

theorem Check.Bound.Alike.number?_eq (alike : Alike b b') : number? b = number? b' := by
  rcases alike with rfl | ⟨m, n, rfl, rfl⟩ <;> rfl

theorem Check.Bound.Alike.isTooLarge_eq (alike : Alike b b') :
    b.any isTooLarge = b'.any isTooLarge := by
  rcases alike with rfl | ⟨m, n, rfl, rfl⟩ <;> rfl

theorem Options.Alike.isOversized_eq (alike : o.Alike s tag o') :
    o.isOversized = o'.isOversized := by
  rw [isOversized, isOversized, alike.least.isTooLarge_eq, alike.greatest.isTooLarge_eq]

theorem Options.Alike.allowable_eq (alike : o.Alike s tag o') : o.allowable = o'.allowable := by
  have lower : o.lower? = o'.lower? := alike.least.number?_eq
  have upper : o.upper? = o'.upper? := alike.greatest.number?_eq
  rw [allowable, allowable, lower, upper, alike.choices]

theorem Options.Alike.describing?_eq (alike : o.Alike s tag o') :
    o.describing? = o'.describing? := by
  rw [describing?, describing?, alike.description]

theorem Options.Alike.targetText_eq (alike : o.Alike s tag o') (reference : tag.reference?.isSome) :
    o.targetText = o'.targetText := by
  rw [targetText, targetText, alike.target reference]

end Options

/-! ## The same visits -/

namespace AcceptedTag

theorem isSome_kind? (a b : Text) (t : AcceptedTag) : (t.kind? a).isSome = (t.kind? b).isSome := by
  cases t with
  | plain v =>
    cases v with
    | ref p => rfl
    | scalar x =>
      cases x with
      | fieldType t => cases t <;> rfl
      | _ => rfl
  | _ => rfl

theorem isSome_kind?_of_reference? {t : AcceptedTag} (reference : t.reference?.isSome) :
    (t.kind? []).isSome := by
  by_contra omitted
  rw [reference?_of_kind? (by simpa using omitted)] at reference
  cases reference

section Alike

variable {s : Store} {t t' : AcceptedTag}

theorem Alike.stray?_eq (alike : t.Alike s t') : t.stray? = t'.stray? := by
  cases alike <;> rfl

theorem Alike.reference?_eq (alike : t.Alike s t') : t.reference? = t'.reference? := by
  cases alike <;> rfl

theorem Alike.isSome_kind?_eq (alike : t.Alike s t') (a b : Text) :
    (t.kind? a).isSome = (t'.kind? b).isSome := by
  rw [isSome_kind? a b]
  cases alike <;> rfl

end Alike

end AcceptedTag

/-- What a visit leads to by itself. -/
def Visit.outcome (x : Visit) : Option Fault × Option Fallback := (x.fault?, x.fallback?)

/-- A pass is determined by what the visits lead to. -/
theorem Visit.pass_congr {α : Type} (a : α) {xs ys : List Visit}
    (same : xs.map Visit.outcome = ys.map Visit.outcome) : Visit.pass a xs = Visit.pass a ys := by
  induction xs generalizing ys with
  | nil =>
    obtain rfl := List.map_eq_nil_iff.mp same.symm
    rfl
  | cons x xs ih =>
    cases ys with
    | nil => cases same
    | cons y ys =>
      obtain ⟨first, later⟩ := List.cons.inj same
      obtain ⟨fault, fallback⟩ := Prod.mk.inj first
      rw [pass, pass, fault, fallback, ih later]

theorem Visit.map_pass {α β : Type} (f : α → β) (a : α) (xs : List Visit) :
    f <$> Visit.pass a xs = Visit.pass (f a) xs := by
  rw [map_eq_pure_bind, pass_bind, pass_bind_pure]

section Visits

variable {s : Store}

/-- What a visit leads to depends on little of the type, and on the bounds if the type maps to
something. -/
theorem Visit.outcome_congr {definition field : Text} {tag tag' : AcceptedTag} {o o' : Options}
    (stray : tag.stray? = tag'.stray?) (reference : tag.reference? = tag'.reference?)
    (kind : (tag.kind? []).isSome = (tag'.kind? []).isSome)
    (bounds : (tag.kind? []).isSome → o.isOversized = o'.isOversized) :
    Visit.outcome ⟨definition, field, tag, o⟩ = Visit.outcome ⟨definition, field, tag', o'⟩ := by
  have fallback : Visit.fallback? ⟨definition, field, tag, o⟩ =
      Visit.fallback? ⟨definition, field, tag', o'⟩ := by
    simp only [fallback?, reference]
  have fault : Visit.fault? ⟨definition, field, tag, o⟩ =
      Visit.fault? ⟨definition, field, tag', o'⟩ := by
    simp only [fault?, stray, tag.isSome_kind? o.targetText [], tag'.isSome_kind? o'.targetText [],
      ← kind]
    cases maps : (tag.kind? []).isSome with
    | false => rfl
    | true => rw [bounds maps]
  exact Prod.ext fault fallback

theorem Visit.outcome_eq {definition field : Text} {tag tag' : AcceptedTag} {o o' : Options}
    (alike : tag.Alike s tag') (modify : (tag.kind? []).isSome → o.Alike s tag o') :
    Visit.outcome ⟨definition, field, tag, o⟩ = Visit.outcome ⟨definition, field, tag', o'⟩ :=
  outcome_congr alike.stray?_eq alike.reference?_eq (alike.isSome_kind?_eq [] [])
    fun maps => (modify maps).isOversized_eq

mutual

theorem AcceptedTag.Alike.visits_eq (name : Text) : {t t' : AcceptedTag} → t.Alike s t' →
    (t.visits name).map Visit.outcome = (t'.visits name).map Visit.outcome
  | _, _, .nested inside => AcceptedSchema.Alike.visits_eq name inside
  | _, _, .list | _, _, .scalar _ | _, _, .ref _ _ => rfl

/-- Schemas that are alike lead through visits with the same outcomes. -/
theorem AcceptedSchema.Alike.visits_eq (name : Text) : {t t' : AcceptedSchema} → t.Alike s t' →
    (t.visits name).map Visit.outcome = (t'.visits name).map Visit.outcome
  | _, _, .done => rfl
  | _, _, .left hidden alike => by
    rw [AcceptedSchema.visits, if_pos hidden, AcceptedSchema.Alike.visits_eq name alike]
  | _, _, .right hidden alike => by
    rw [AcceptedSchema.visits.eq_def _ (.field _ _ _ _)]
    simp only [if_pos hidden]
    exact AcceptedSchema.Alike.visits_eq name alike
  | .field field .., _, .field type modify alike => by
    have later := AcceptedSchema.Alike.visits_eq name alike
    rw [AcceptedSchema.visits, AcceptedSchema.visits]
    split
    · exact later
    · simp only [List.map_append, List.map_cons, later, Visit.outcome_eq type modify,
        AcceptedTag.Alike.visits_eq (nestedName name field) type]

end

end Visits

/-! ## Definitions that show the same -/

namespace Shape

variable {s : Store}

theorem treeEntries_eq (entries : List (Value × Shape)) :
    treeEntries s entries = entries.map fun e => (s.unfold e.1, e.2.tree s) := by
  induction entries with
  | nil => rfl
  | cons e rest ih => rw [treeEntries, ih, List.map_cons]

/-- What the entries of a record show. -/
def shown (s : Store) (record : List (String × Shape)) : List (Tree × Tree) :=
  record.map fun e => (s.unfold (.ofText (text e.1)), e.2.tree s)

theorem tree_record (record : List (String × Shape)) :
    (Shape.record record).tree s = .map (shown s record) := by
  rw [Shape.record, tree, treeEntries_eq, List.map_map]
  rfl

@[simp] theorem shown_append (front back : List (String × Shape)) :
    shown s (front ++ back) = shown s front ++ shown s back :=
  List.map_append

end Shape

open Shape

/-- The kinds show the same in every property. -/
structure Kind.ShowsLike (s : Store) (kind kind' : Kind) : Prop where
  entries : shown s kind.entries = shown s kind'.entries
  fallbackType : kind.fallbackType = kind'.fallbackType

theorem Store.unfold_eq_null {s : Store} {v : Value} : s.unfold v = .scalar .null ↔ v = .null := by
  cases v with
  | scalar x => simp [Store.unfold, Store.unfoldWithin, Value.null]
  | ref p =>
    simp only [Store.unfold, Store.unfoldWithin, List.idxOf?_nil, reduceCtorEq, iff_false]
    split <;> try simp
    split <;> simp

theorem Options.Alike.shown_example {s : Store} {tag : AcceptedTag} {o o' : Options}
    (alike : o.Alike s tag o') :
    shown s (o.example?.map fun v => ("example", Shape.copy v)).toList =
      shown s (o'.example?.map fun v => ("example", Shape.copy v)).toList := by
  have absent : o.sample = .null ↔ o'.sample = .null := by
    rw [← Store.unfold_eq_null (s := s), alike.sample, Store.unfold_eq_null]
  by_cases none : o.sample = .null
  · rw [example?, example?, if_pos none, if_pos (absent.mp none)]
  · rw [example?, example?, if_neg none, if_neg (mt absent.mpr none)]
    simp only [shown, tree, Option.map_some, Option.toList_some, List.map_cons, List.map_nil,
      alike.sample]

theorem Options.Alike.tree_property {s : Store} {tag : AcceptedTag} {o o' : Options}
    {kind kind' : Kind} (alike : o.Alike s tag o') (same : kind.ShowsLike s kind') :
    (o.property kind).shape.tree s = (o'.property kind').shape.tree s := by
  simp only [property, Property.shape, tree_record, shown_append, same.entries, same.fallbackType,
    alike.describing?_eq, alike.allowable_eq, alike.shown_example]

theorem FieldType.showsLike_kind? {s : Store} (t : FieldType) {target target' : Text}
    (same : (AcceptedTag.plain (.scalar (.fieldType t))).reference?.isSome → target = target') :
    Option.Rel (Kind.ShowsLike s) (t.kind? target) (t.kind? target') := by
  cases t with
  | object => exact .none
  | objectId | oid => exact .some ⟨by rw [same rfl], rfl⟩
  | _ => exact .some ⟨rfl, rfl⟩

mutual

theorem AcceptedTag.Alike.showsLike_kind? {s : Store} {target target' : Text} :
    {t t' : AcceptedTag} → t.Alike s t' → (t.reference?.isSome → target = target') →
      Option.Rel (Kind.ShowsLike s) (t.kind? target) (t'.kind? target')
  | .nested element, .nested element', .nested inside, _ => by
    have same := AcceptedSchema.Alike.shown_properties inside
    refine .some ⟨?_, rfl⟩
    simp only [Kind.entries, shown, List.map_cons, Collected.definition, Definition.shape,
      tree_record, tree, same]
  | _, _, .list, _ => .some ⟨rfl, rfl⟩
  | _, _, .scalar (.fieldType t), same => t.showsLike_kind? same
  | _, _, .scalar .null, _ | _, _, .scalar (.bool _), _ | _, _, .scalar (.int _), _
  | _, _, .scalar (.float _), _ | _, _, .scalar (.string _), _ | _, _, .scalar (.octets _), _
  | _, _, .scalar (.method _), _ => .none
  | _, _, .ref _ _, _ => .none

/-- The properties of schemas that are alike show the same. -/
theorem AcceptedSchema.Alike.shown_properties {s : Store} : {t t' : AcceptedSchema} →
    t.Alike s t' → treeEntries s (Property.entriesOf t.collected.properties) =
      treeEntries s (Property.entriesOf t'.collected.properties)
  | _, _, .done => rfl
  | _, _, .left hidden alike => by
    rw [AcceptedSchema.collected, if_pos hidden, AcceptedSchema.Alike.shown_properties alike]
  | _, _, .right hidden alike => by
    rw [AcceptedSchema.collected.eq_def (.field _ _ _ _)]
    simp only [if_pos hidden]
    exact AcceptedSchema.Alike.shown_properties alike
  | .field name tag options rest, .field _ tag' options' rest', .field type modify alike => by
    have later := AcceptedSchema.Alike.shown_properties alike
    rw [AcceptedSchema.collected, AcceptedSchema.collected]
    split
    · exact later
    · have target (reference : tag.reference?.isSome) :
          options.targetText = options'.targetText :=
        (modify (AcceptedTag.isSome_kind?_of_reference? reference)).targetText_eq reference
      have maps : (tag.kind? options.targetText).isSome → options.Alike s tag options' := by
        rw [tag.isSome_kind? _ []]
        exact modify
      have kinds := AcceptedTag.Alike.showsLike_kind? type target
      generalize tag.kind? options.targetText = kind? at kinds maps ⊢
      generalize tag'.kind? options'.targetText = kind?' at kinds ⊢
      cases kinds with
      | none => exact later
      | some same =>
        have property := (maps rfl).tree_property same
        simp only [Collected.cons, Property.entriesOf, treeEntries, property, later]

end

theorem AcceptedSchema.Alike.tree_definition {s : Store} {t t' : AcceptedSchema}
    (alike : t.Alike s t') : t.definition.shape.tree s = t'.definition.shape.tree s := by
  simp only [AcceptedSchema.definition, Collected.definition, Definition.shape, tree_record, shown,
    List.map_cons, List.map_nil, tree, alike.shown_properties]

/-- A document shows what it shows by its definition. -/
theorem Document.tree_of {s : Store} (r : Subject) (enabled : List Method)
    {definition definition' : ModelDefinition}
    (same : definition.shape.tree s = definition'.shape.tree s) :
    (Document.of r enabled definition).shape.tree s =
      (Document.of r enabled definition').shape.tree s := by
  simp only [Document.shape, Document.of, tree_record, shown, List.map_cons, List.map_nil, tree,
    treeEntries, same]

/-! ## The same outcome -/

/-- Two runs, each with a store of its own, come to the same: they leave the same in a journal, and
there is the same fault or there are shapes that show the same where they are placed. -/
def Report.ComeToSame (u u' : Store) (r r' : Report Shape) : Prop :=
  ∀ j, (r j).2 = (r' j).2 ∧
    match (r j).1, (r' j).1 with
    | .ok shape, .ok shape' =>
      (shape.place u).2.unfold (shape.place u).1 = (shape'.place u').2.unfold (shape'.place u').1
    | .error fault, .error fault' => fault = fault'
    | _, _ => False

section Runs

variable {s u u' : Store}

/-- Passes over visits with the same outcomes come to the same if their shapes show the same. -/
theorem Visit.comeToSame_pass (closed : s.Closed) (left : s.Extends u) (right : s.Extends u')
    (closedLeft : u.Closed) (closedRight : u'.Closed) {shape shape' : Shape} (held : shape.HeldBy s)
    (held' : shape'.HeldBy s) (same : shape.tree s = shape'.tree s) {xs ys : List Visit}
    (visits : xs.map outcome = ys.map outcome) :
    Report.ComeToSame u u' (pass shape xs) (pass shape' ys) := by
  rw [← pass_congr shape' visits]
  intro j
  rw [pass_apply, pass_apply]
  refine ⟨rfl, ?_⟩
  cases xs.findSome? fault? with
  | some fault => rfl
  | none =>
    calc (shape.place u).2.unfold (shape.place u).1
        = shape.tree s := unfold_place closed left closedLeft held
      _ = shape'.tree s := same
      _ = (shape'.place u').2.unfold (shape'.place u').1 :=
          (unfold_place closed right closedRight held').symm

/-- Schemas that are alike lead to the same definition and to the same document, or to the same
fault, and they leave the same in the journal. The stores of the two runs may have more than the
schemas, such as the outcome of the other run. -/
theorem irrelevant_parts_have_no_influence (closed : s.Closed) (left : s.Extends u)
    (right : s.Extends u') (closedLeft : u.Closed) (closedRight : u'.Closed)
    {t t' : AcceptedSchema} {v v' : Value} (lies : t.LiesAt s v) (lies' : t'.LiesAt s v')
    (alike : t.Alike s t') :
    (∀ name, Report.ComeToSame u u' (u.definitionOf v name) (u'.definitionOf v' name)) ∧
      ∀ (r : Resource) (resource definition : Value), r.LiesAt s resource → s.Holds definition →
        Report.ComeToSame u u' (Document.shape <$> u.compile resource v definition)
          (Document.shape <$> u'.compile resource v' definition) := by
  have takes := lies.takes_definition closed
  have takes' := lies'.takes_definition closed
  have onLeft := lies.mono closed left
  have onRight := lies'.mono closed right
  refine ⟨fun name => ?_, fun r resource definition lying held => ?_⟩
  · rw [onLeft.definitionOf_eq, onRight.definitionOf_eq]
    exact Visit.comeToSame_pass closed left right closedLeft closedRight takes.heldBy_of_isPlainScalar
      takes'.heldBy_of_isPlainScalar alike.tree_definition (alike.visits_eq name)
  · have resourceLeft := lying.mono left
    have resourceRight := lying.mono right
    by_cases absent : definition = .null
    · have made : (ModelDefinition.made t.definition).shape.tree s =
          (ModelDefinition.made t'.definition).shape.tree s :=
        alike.tree_definition
      rw [absent, resourceLeft.compile_made onLeft, resourceRight.compile_made onRight,
        Visit.map_pass, Visit.map_pass]
      exact Visit.comeToSame_pass closed left right closedLeft closedRight
        (r.takes_document takes).heldBy_of_isPlainScalar
        (r.takes_document takes').heldBy_of_isPlainScalar
        (Document.tree_of _ _ made) (alike.visits_eq r.model)
    · have copied : (r.document (.given definition)).shape.HeldBy s :=
        (r.takes_document (Shape.takes_copy held)).heldBy_of_isPlainScalar
      have none : ([] : List Visit).map Visit.outcome = [].map Visit.outcome := rfl
      rw [resourceLeft.compile_given absent, resourceRight.compile_given absent, map_pure]
      exact Visit.comeToSame_pass closed left right closedLeft closedRight copied copied rfl none

end Runs

namespace AlikeSample

/-- Options that modify, with a bound that would be too large. -/
def modifying : Options :=
  ⟨true, some (text "Hidden."), .scalar (.int 1), [], some (.whole (tenTo 309)),
    some (.real (.nan 1)), some (text "Zoo"), true⟩

/-- Options with the flags and a target. -/
def flagged : Options := ⟨true, none, .null, [], none, none, some (text "Zoo"), true⟩

/-- A private field that is no type, a list of a schema, and data that map to nothing. -/
def schema : AcceptedSchema :=
  .field (text "__key") (.plain (.scalar (.int 7))) NestedSample.options <|
  .field (text "team")
    (.nested <| .field (text "kind") (.plain (.scalar (.fieldType .string)))
      NestedSample.options .done)
    NestedSample.options <|
  .field (text "data") (.plain (.scalar (.fieldType .object))) NestedSample.options .done

/-- The flags and targets differ, the data are modified, and another field is private. -/
def otherSchema : AcceptedSchema :=
  .field (text "team")
    (.nested <| .field (text "kind") (.plain (.scalar (.fieldType .string))) flagged .done)
    flagged <|
  .field (text "data") (.plain (.scalar (.fieldType .object))) modifying <|
  .field (text "__late") (.plain .null) modifying .done

/-- A declaration with options and without choices. -/
def declaration (tag : Value) (o : Options) : FieldCell :=
  ⟨tag, .scalar (.bool o.required), .ofText? o.description, o.sample, .ref 0, .ofBound? o.least,
    .ofBound? o.greatest, .ofText? o.target, .scalar (.bool o.readonly)⟩

def resource : Resource := ⟨text "/teams", text "team", text "Team", []⟩

/-- A store that holds the schemas and the resource. The list in the other schema has one more
element. -/
def store : Store where
  cells := #[
    .list [],
    .field (declaration (.scalar (.fieldType .string)) NestedSample.options),
    .map [(.ofText (text "kind"), .ref 1)],
    .schema (.ref 2),
    .list [.ref 3],
    .field (declaration (.scalar (.int 7)) NestedSample.options),
    .field (declaration (.ref 4) NestedSample.options),
    .field (declaration (.scalar (.fieldType .object)) NestedSample.options),
    .map [(.ofText (text "__key"), .ref 5), (.ofText (text "team"), .ref 6),
      (.ofText (text "data"), .ref 7)],
    .schema (.ref 8),
    .field (declaration (.scalar (.fieldType .string)) flagged),
    .map [(.ofText (text "kind"), .ref 10)],
    .schema (.ref 11),
    .list [.ref 12, .null],
    .field (declaration (.ref 13) flagged),
    .field (declaration (.scalar (.fieldType .object)) modifying),
    .field (declaration .null modifying),
    .map [(.ofText (text "team"), .ref 14), (.ofText (text "data"), .ref 15),
      (.ofText (text "__late"), .ref 16)],
    .schema (.ref 17),
    .resource ⟨.ofText resource.route, .ofText resource.name, .ofText resource.model, .ref 0⟩]
  labels := 2
  given := []

theorem lieIn (tag : Value) {o : Options} (none : o.choices = []) :
    o.LieIn store (declaration tag o) :=
  ⟨rfl, rfl, rfl, by rw [none]; rfl, rfl, rfl, rfl, rfl⟩

theorem liesAt : schema.LiesAt store (.ref 9) := by
  refine ⟨_, rfl, ?_⟩
  refine ⟨_, _, _, rfl, rfl, ⟨rfl, nofun, rfl⟩, lieIn _ rfl, by decide, ?_⟩
  refine ⟨_, _, _, rfl, rfl, ⟨_, _, _, rfl, rfl, ?_⟩, lieIn _ rfl, by decide, ?_⟩
  · exact ⟨_, _, _, rfl, rfl, ⟨rfl, nofun, rfl⟩, lieIn _ rfl, by decide, rfl⟩
  · exact ⟨_, _, _, rfl, rfl, ⟨rfl, nofun, rfl⟩, lieIn _ rfl, by decide, rfl⟩

theorem other_liesAt : otherSchema.LiesAt store (.ref 18) := by
  refine ⟨_, rfl, ?_⟩
  refine ⟨_, _, _, rfl, rfl, ⟨_, _, _, rfl, rfl, ?_⟩, lieIn _ rfl, by decide, ?_⟩
  · exact ⟨_, _, _, rfl, rfl, ⟨rfl, nofun, rfl⟩, lieIn _ rfl, by decide, rfl⟩
  · refine ⟨_, _, _, rfl, rfl, ⟨rfl, nofun, rfl⟩, lieIn _ rfl, by decide, ?_⟩
    exact ⟨_, _, _, rfl, rfl, ⟨rfl, nofun, rfl⟩, lieIn _ rfl, by decide, rfl⟩

theorem resource_liesAt : resource.LiesAt store (.ref 19) := ⟨_, rfl, rfl⟩

theorem closed : store.Closed := Store.closed_of_cells rfl (by decide)

theorem alike_flagged (tag : AcceptedTag) (plain : tag.reference? = none) :
    NestedSample.options.Alike store tag flagged := by
  refine ⟨rfl, rfl, rfl, .inl rfl, .inl rfl, fun reference => ?_⟩
  rw [plain] at reference
  cases reference

theorem alike : schema.Alike store otherSchema :=
  .left rfl <|
  .field (.nested (.field (.scalar _) (fun _ => alike_flagged _ rfl) .done))
    (fun _ => alike_flagged _ rfl) <|
  .field (.scalar _) nofun <|
  .right rfl .done

end AlikeSample

/-- In the other schema a bound is too large for any field that maps to something. -/
theorem irrelevant_parts_of_sample :
    Report.ComeToSame AlikeSample.store AlikeSample.store
        (AlikeSample.store.definitionOf (.ref 9) (text "Team"))
        (AlikeSample.store.definitionOf (.ref 18) (text "Team")) ∧
      Report.ComeToSame AlikeSample.store AlikeSample.store
        (Document.shape <$> AlikeSample.store.compile (.ref 19) (.ref 9) .null)
        (Document.shape <$> AlikeSample.store.compile (.ref 19) (.ref 18) .null) ∧
      (AlikeSample.store.definitionOf (.ref 18) (text "Team") ⟨none, []⟩).1 =
        .ok AlikeSample.otherSchema.definition.shape := by
  obtain ⟨defined, compiled⟩ := irrelevant_parts_have_no_influence AlikeSample.closed
    (.refl AlikeSample.store) (.refl AlikeSample.store) AlikeSample.closed AlikeSample.closed
    AlikeSample.liesAt AlikeSample.other_liesAt AlikeSample.alike
  refine ⟨defined (text "Team"), compiled _ _ .null AlikeSample.resource_liesAt
    (Store.holds_scalar _ _), ?_⟩
  rw [AlikeSample.other_liesAt.definitionOf_eq (text "Team")]
  rfl

end SwaggerDoc
