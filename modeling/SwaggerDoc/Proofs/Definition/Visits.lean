import SwaggerDoc.Document.Compile
import SwaggerDoc.Proofs.Definition.Content
import SwaggerDoc.Proofs.Schema.Reading

/-!
The fields that a normalization visits, one after the other.

Normalizing goes into the schemas that list types hold. Seen from outside it is one pass over a list
of visits: the public fields in the order declared, the fields of a held schema before the field
that holds it, because that field is finished only when its items are described. Each visit either
goes wrong by itself or is passed, and a passed visit notes at most one fallback.

The main statement is `AcceptedSchema.LiesIn.collect_eq`: collecting the fields of an accepted
schema is that pass, and what it comes to is `AcceptedSchema.collected`.
-/

namespace SwaggerDoc

/-- The name of the definition nested in a field: behind the name of the outer definition and a
point, unless that name is empty. -/
def nestedName (outer field : Text) : Text :=
  if outer.isEmpty then field else outer ++ text "." ++ field

/-- A field as it is come to. -/
structure Visit where
  /-- The name of the definition that the field belongs to. -/
  definition : Text
  field : Text
  tag : AcceptedTag
  options : Options

mutual

/-- The fields visited in the type of a field, for a nested definition of the given name. -/
def AcceptedTag.visits (name : Text) : AcceptedTag → List Visit
  | .nested element => element.visits name
  | _ => []

/-- The fields visited in a schema, for a definition of the given name. -/
def AcceptedSchema.visits (name : Text) : AcceptedSchema → List Visit
  | .done => []
  | .field field tag options rest =>
    if isPrivate field then rest.visits name
    else tag.visits (nestedName name field) ++ ⟨name, field, tag, options⟩ :: rest.visits name

end

namespace AcceptedTag

/-- A text, a number or a truth value that counts as present and is no type tag: the type of a field
should have been a tag instead. -/
def stray? : AcceptedTag → Option Scalar
  | .plain (.scalar x) =>
    match x with
    | .null | .octets _ | .fieldType _ => none
    | x => if x.truthy then some x else none
  | _ => none

/-- The reference tag that the type of a field is. -/
def reference? : AcceptedTag → Option FieldType
  | .plain (.scalar (.fieldType .objectId)) => some .objectId
  | .plain (.scalar (.fieldType .oid)) => some .oid
  | _ => none

end AcceptedTag

/-- What goes wrong with a type that is no type: it is not recognised, unless it cannot even be
shown. -/
def Fault.ofStray (x : Scalar) (field : Text) : Fault :=
  match x.shown with
  | .ok shown => .unrecognized (.scalar x) shown (some (.text field))
  | .error fault => fault

namespace Visit

/-- What goes wrong at a visited field by itself: its type is not recognised, or the type maps to
something and a bound is too large. -/
def fault? (x : Visit) : Option Fault :=
  match x.tag.stray? with
  | some stray => some (.ofStray stray x.field)
  | none =>
    if (x.tag.kind? x.options.targetText).isSome && x.options.isOversized then some .tooLarge
    else none

/-- The fallback that a visited field is reported with once it is passed. -/
def fallback? (x : Visit) : Option Fallback :=
  x.tag.reference?.map fun t => ⟨x.definition, x.field, t.name⟩

/-- The pass over visits: it stops at the first that goes wrong, and comes to the given result if
none does. -/
def pass {α : Type} (a : α) : List Visit → Report α
  | [] => pure a
  | x :: rest =>
    match x.fault? with
    | some fault => .fault fault
    | none => fun j => pass a rest (j.noteAll x.fallback?.toList)

end Visit

section Pass

variable {α β : Type}

theorem Visit.pass_append (a : α) (xs ys : List Visit) :
    Visit.pass a (xs ++ ys) = (do Visit.pass () xs; Visit.pass a ys) := by
  induction xs with
  | nil => rfl
  | cons x xs ih =>
    simp only [List.cons_append, Visit.pass]
    cases x.fault? with
    | some fault => rfl
    | none =>
      funext j
      rw [ih]
      rfl

theorem Visit.pass_cons (a : α) (x : Visit) (xs : List Visit) :
    Visit.pass a (x :: xs) = (do Visit.pass () [x]; Visit.pass a xs) :=
  Visit.pass_append a [x] xs

/-- What a pass comes to is known beforehand, unless it stops. -/
theorem Visit.pass_bind (a : α) (xs : List Visit) (f : α → Report β) :
    Visit.pass a xs >>= f = (do Visit.pass () xs; f a) := by
  induction xs with
  | nil => rfl
  | cons x xs ih =>
    simp only [Visit.pass]
    cases x.fault? with
    | some fault => rfl
    | none =>
      funext j
      exact congrFun ih _

theorem Visit.pass_bind_pure (b : β) (xs : List Visit) :
    (do Visit.pass () xs; pure b) = Visit.pass b xs := by
  simpa [Visit.pass] using (Visit.pass_append b xs []).symm

/-- A pass by its outcome: the first fault among the visits, and the fallbacks of those before. -/
theorem Visit.pass_apply (a : α) (xs : List Visit) (j : Journal) :
    Visit.pass a xs j =
      ( (xs.findSome? Visit.fault?).elim (.ok a) .error,
        j.noteAll ((xs.takeWhile (·.fault?.isNone)).filterMap Visit.fallback?) ) := by
  induction xs generalizing j with
  | nil => simp [Visit.pass, Report.pure_apply]
  | cons x xs ih =>
    simp only [Visit.pass, List.findSome?_cons, List.takeWhile_cons]
    cases x.fault? with
    | some fault => simp [Report.fault_apply]
    | none =>
      simp only [ih, Journal.noteAll_noteAll, Option.isNone_none, if_true, List.filterMap_cons]
      cases x.fallback? <;> rfl

/-- A pass that comes to a result comes to the one given. -/
theorem Visit.eq_of_pass {a b : α} {xs : List Visit} {j : Journal}
    (done : (Visit.pass a xs j).1 = .ok b) : b = a := by
  rw [Visit.pass_apply] at done
  cases stops : xs.findSome? Visit.fault? with
  | some fault =>
    rw [stops] at done
    cases done
  | none =>
    rw [stops] at done
    exact (Except.ok.inj done).symm

end Pass

/-! ## Faults of visits name their field -/

theorem Scalar.shown_error {x : Scalar} {fault : Fault} (failed : x.shown = .error fault) :
    fault = .badValue := by
  cases x with
  | int i =>
    simp only [Scalar.shown, integerText?] at failed
    split at failed
    · cases failed
    · exact (Except.error.inj failed).symm
  | _ => cases failed

theorem Fault.ofStray_ne_unnamed {x : Scalar} {field shown : Text} {tag : Value} :
    Fault.ofStray x field ≠ .unrecognized tag shown none := by
  unfold Fault.ofStray
  split
  · simp
  · next failed =>
    rw [Scalar.shown_error failed]
    simp

theorem Visit.fault?_ne_unnamed {x : Visit} {tag : Value} {shown : Text} :
    x.fault? ≠ some (.unrecognized tag shown none) := by
  unfold Visit.fault?
  split
  · simpa using Fault.ofStray_ne_unnamed
  · split <;> simp

/-- A pass blames nobody else for what goes wrong. -/
theorem Visit.blame_pass {α : Type} (field : Name) (a : α) (xs : List Visit) :
    (Visit.pass a xs).blame field = Visit.pass a xs := by
  induction xs with
  | nil => rfl
  | cons x xs ih =>
    simp only [Visit.pass]
    cases failed : x.fault? with
    | some fault =>
      funext j
      simp only [Report.blame, Report.fault_apply]
      split
      · next tag shown j' same =>
        obtain rfl := Except.error.inj (Prod.mk.inj same).1
        exact absurd failed Visit.fault?_ne_unnamed
      · rfl
    | none =>
      funext j
      exact congrFun ih _

/-! ## What single types map to -/

/-- A text that is left as it is by validation does not name a type tag. -/
theorem Draft.ne_name_of_namedTag {t : Text} (named : Draft.namedTag (.ofText t) = .ofText t)
    (tag : FieldType) : t ≠ tag.name := by
  rintro rfl
  simp [Draft.namedTag, Scalar.asText?, FieldType.ofName?_name] at named

theorem Kind.ofScalar_of_named {v : Value} (named : Draft.namedTag v = v) (target : Text) :
    Kind.ofScalar (.ok target) v =
      match (AcceptedTag.plain v).stray? with
      | none => .ok ((AcceptedTag.plain v).kind? target)
      | some x => x.shown >>= fun shown => .error (.unrecognized v shown none) := by
  cases v with
  | ref p => rfl
  | scalar x =>
    cases x with
    | null => rfl
    | bool b => cases b <;> rfl
    | int i =>
      cases zero : i != 0 <;>
        simp [Kind.ofScalar, AcceptedTag.stray?, AcceptedTag.kind?, Scalar.truthy, zero,
          Value.isReferenceTag, Value.isOpaqueTag, Value.asText?, Scalar.asText?, Scalar.isTagLike]
    | float f =>
      cases zero : f.isZero <;>
        simp [Kind.ofScalar, AcceptedTag.stray?, AcceptedTag.kind?, Scalar.truthy, zero,
          Value.isReferenceTag, Value.isOpaqueTag, Value.asText?, Scalar.asText?, Scalar.isTagLike]
    | string t =>
      have different := Draft.ne_name_of_namedTag named
      cases empty : t.isEmpty <;>
        simp [Kind.ofScalar, AcceptedTag.stray?, AcceptedTag.kind?, Scalar.truthy, empty,
          Value.isReferenceTag, Value.isOpaqueTag, Value.asText?, Scalar.asText?, Scalar.isTagLike,
          different]
    | octets o =>
      cases empty : o.isEmpty <;>
        simp [Kind.ofScalar, AcceptedTag.stray?, AcceptedTag.kind?, Scalar.truthy, empty,
          Value.isReferenceTag, Value.isOpaqueTag, Value.asText?, Scalar.asText?, Scalar.isTagLike]
    | fieldType t => cases t <;> rfl
    | method m => cases m <;> rfl

/-! ## A normalization is a pass over its visits -/

theorem AcceptedTag.visits_of_stray {t : AcceptedTag} {x : Scalar} {name : Text}
    (stray : t.stray? = some x) : t.visits name = [] := by
  cases t with
  | nested element => cases stray
  | list => rfl
  | plain v => rfl

theorem AcceptedTag.reference?_of_kind? {t : AcceptedTag} {target : Text}
    (omitted : t.kind? target = none) : t.reference? = none := by
  cases t with
  | nested element => cases omitted
  | list => cases omitted
  | plain v =>
    cases v with
    | ref p => rfl
    | scalar x =>
      cases x with
      | fieldType t => cases t <;> first | rfl | cases omitted
      | _ => rfl

/-- A field is reported with a fallback if its type maps to a reference. -/
theorem Fallback.of?_outline {name field target : Text} {tag : AcceptedTag} {kind : Kind}
    (maps : tag.kind? target = some kind) :
    Fallback.of? (.ofText name) (.text field) tag.outline kind =
      .ok (tag.reference?.map fun t => ⟨name, field, t.name⟩) := by
  cases tag with
  | nested element =>
    obtain rfl := Option.some.inj maps
    rfl
  | list =>
    obtain rfl := Option.some.inj maps
    rfl
  | plain v =>
    cases v with
    | ref p => cases maps
    | scalar x =>
      cases x with
      | fieldType t =>
        cases t with
        | object => cases maps
        | _ =>
          obtain rfl := Option.some.inj maps
          rfl
      | _ => cases maps

theorem DefinitionName.nested_ofText (name field : Text) :
    (DefinitionName.ofText name).nested (.text field) = .ok (.ofText (nestedName name field)) := by
  cases name <;> rfl

/-- A field whose type maps as said is a visit behind the visits in its type. -/
theorem Entry.property_eq {name inner field : Text} {tag : AcceptedTag} {options : Options}
    (kind : (tag.outline.kind (.ofText inner) (.ok options.targetText)).blame (.text field) =
      match tag.stray? with
      | none => Visit.pass (tag.kind? options.targetText) (tag.visits inner)
      | some x => .fault (.ofStray x field)) :
    Entry.property (.ofText name) (.ofText inner) (.text field)
        (.declared tag.outline options.modifiers) =
      Visit.pass ((tag.kind? options.targetText).map fun kind =>
          (options.property kind, options.required))
        (tag.visits inner ++ [⟨name, field, tag, options⟩]) := by
  have target : options.modifiers.target = .ok options.targetText := rfl
  rw [Entry.property, target, kind]
  cases stray : tag.stray? with
  | some x => simp [AcceptedTag.visits_of_stray stray, Visit.pass, Visit.fault?, stray]
  | none =>
    simp only [Visit.pass_bind, Visit.pass_append]
    congr 1
    funext _
    cases maps : tag.kind? options.targetText with
    | none =>
      funext j
      simp [Visit.pass, Visit.fault?, stray, maps, Visit.fallback?,
        AcceptedTag.reference?_of_kind? maps]
    | some kind =>
      simp only [Property.modified_modifiers, Fallback.of?_outline maps, Visit.pass, Visit.fault?,
        stray, maps, Option.isSome_some, Bool.true_and]
      cases large : options.isOversized with
      | true => rfl
      | false =>
        cases reference : tag.reference? with
        | none =>
          funext j
          simp [Visit.fallback?, reference]
          rfl
        | some t =>
          funext j
          simp [Visit.fallback?, reference]
          rfl

theorem AcceptedTag.eq_of_stray? {v : Value} {x : Scalar}
    (stray : (AcceptedTag.plain v).stray? = some x) : v = .scalar x := by
  cases v with
  | ref p => cases stray
  | scalar y =>
    simp only [AcceptedTag.stray?] at stray
    split at stray
    · cases stray
    · cases stray
    · cases stray
    · split at stray
      · exact congrArg Value.scalar (Option.some.inj stray)
      · cases stray

theorem Report.blame_stray {α : Type} (x : Scalar) (field : Text) :
    (Report.ofExcept (x.shown >>= fun shown => .error (.unrecognized (.scalar x) shown none)) :
        Report α).blame (.text field) =
      .fault (.ofStray x field) := by
  unfold Fault.ofStray
  cases failed : x.shown with
  | ok shown => rfl
  | error fault =>
    obtain rfl := Scalar.shown_error failed
    rfl

mutual

theorem AcceptedTag.LiesAt.kind_eq {s : Store} {v : Value} (inner field target : Text) :
    {t : AcceptedTag} → t.LiesAt s v →
      (t.outline.kind (.ofText inner) (.ok target)).blame (.text field) =
        match t.stray? with
        | none => Visit.pass (t.kind? target) (t.visits inner)
        | some x => .fault (.ofStray x field)
  | .nested element, lies => by
    obtain ⟨first, rest, entries, -, -, inside⟩ := lies
    simp only [AcceptedTag.outline, Tag.kind, AcceptedTag.stray?, AcceptedTag.kind?,
      AcceptedTag.visits, AcceptedSchema.LiesIn.collect_eq inner inside, Visit.pass_bind,
      Visit.pass_bind_pure, Visit.blame_pass]
  | .list, _ => rfl
  | .plain w, lies => by
    obtain ⟨rfl, -, named⟩ := lies
    simp only [AcceptedTag.outline, Tag.kind, Kind.ofScalar_of_named named]
    cases stray : (AcceptedTag.plain v).stray? with
    | none => rfl
    | some x =>
      have same : v = .scalar x := AcceptedTag.eq_of_stray? stray
      subst same
      exact Report.blame_stray x field

/-- Collecting the fields of an accepted schema is a pass over its visits. -/
theorem AcceptedSchema.LiesIn.collect_eq {s : Store} (name : Text) :
    {t : AcceptedSchema} → {entries : List (Value × Value)} → t.LiesIn s entries →
      t.outline.collect (.ofText name) = Visit.pass t.collected (t.visits name)
  | .done, _, _ => rfl
  | .field field tag options rest, _, lies => by
    obtain ⟨v, f, later, -, -, type, -, -, inside⟩ := lies
    have later := AcceptedSchema.LiesIn.collect_eq name inside
    simp only [AcceptedSchema.outline, AcceptedSchema.collected, AcceptedSchema.visits]
    cases isPrivate field with
    | true => exact later
    | false =>
      have kind := AcceptedTag.LiesAt.kind_eq (nestedName name field) field options.targetText type
      simp only [Bool.false_eq_true, if_false, Outline.collect, DefinitionName.nested_ofText,
        Report.ofExcept_ok, pure_bind, Entry.property_eq kind, later, Visit.pass_bind,
        Visit.pass_append, Visit.pass_cons _ _ (rest.visits name), bind_assoc]
      cases tag.kind? options.targetText with
      | none => simp only [Option.map_none, Visit.pass_bind_pure]
      | some kind => simp only [Option.map_some, Visit.pass_bind_pure]

end

/-- The definition of an accepted schema is the outcome of the pass over its visits. -/
theorem AcceptedSchema.LiesAt.define_eq {s : Store} {t : AcceptedSchema} {v : Value}
    (lies : t.LiesAt s v) (name : Text) :
    (s.outlineOf v).define (.ofText name) = Visit.pass t.definition (t.visits name) := by
  have read : s.outlineOf v = t.outline := lies.read_eq
  obtain ⟨entries, -, inside⟩ := lies
  simp only [Outline.define, read, inside.collect_eq name, Visit.pass_bind, Visit.pass_bind_pure,
    AcceptedSchema.definition]

/-- The same, placed nowhere yet. -/
theorem AcceptedSchema.LiesAt.definitionOf_eq {s : Store} {t : AcceptedSchema} {v : Value}
    (lies : t.LiesAt s v) (name : Text) :
    s.definitionOf v name = Visit.pass t.definition.shape (t.visits name) := by
  simp only [Store.definitionOf, lies.define_eq name, Visit.pass_bind, Visit.pass_bind_pure]

/-- What normalizing an accepted schema comes to is its definition. -/
theorem AcceptedSchema.LiesAt.eq_of_definitionOf {s : Store} {t : AcceptedSchema} {v : Value}
    (lies : t.LiesAt s v) {name : Text} {j : Journal} {shape : Shape}
    (made : (s.definitionOf v name j).1 = .ok shape) : shape = t.definition.shape := by
  rw [lies.definitionOf_eq name] at made
  exact Visit.eq_of_pass made

/-! ## A schema inside a schema -/

namespace NestedSample

/-- Options of which none is given. -/
def options : Options := ⟨false, none, .null, [], none, none, none, false⟩

/-- A declaration with a type and nothing else. -/
def declaration (tag : Value) : FieldCell :=
  ⟨tag, .scalar (.bool false), .null, .null, .ref 0, .null, .null, .null, .scalar (.bool false)⟩

/-- A private field, a list of a schema with a reference and a type that is none, and another type
that is none. -/
def schema : AcceptedSchema :=
  .field (text "__key") (.plain (.scalar (.int 7))) options <|
  .field (text "team")
    (.nested <|
      .field (text "owner") (.plain (.scalar (.fieldType .objectId))) options <|
      .field (text "kind") (.plain (.ofText (text "Strange"))) options .done)
    options <|
  .field (text "size") (.plain (.scalar (.int 7))) options .done

/-- A store that holds the schema at its last place. -/
def store : Store where
  cells := #[
    .list [],
    .field (declaration (.scalar (.fieldType .objectId))),
    .field (declaration (.ofText (text "Strange"))),
    .map [(.ofText (text "owner"), .ref 1), (.ofText (text "kind"), .ref 2)],
    .schema (.ref 3),
    .list [.ref 4],
    .field (declaration (.ref 5)),
    .field (declaration (.scalar (.int 7))),
    .map [(.ofText (text "__key"), .ref 7), (.ofText (text "team"), .ref 6),
      (.ofText (text "size"), .ref 7)],
    .schema (.ref 8)]
  labels := 1
  given := []

theorem options_lieIn {s : Store} (empty : s.deref? (.ref 0) = some (.list [])) (tag : Value) :
    options.LieIn s (declaration tag) :=
  ⟨rfl, rfl, rfl, empty, rfl, rfl, rfl, rfl⟩

theorem schema_liesAt : schema.LiesAt store (.ref 9) := by
  refine ⟨_, rfl, ?_⟩
  refine ⟨_, _, _, rfl, rfl, ⟨rfl, nofun, rfl⟩, options_lieIn rfl _, by decide, ?_⟩
  refine ⟨_, _, _, rfl, rfl, ?_, options_lieIn rfl _, by decide, ?_⟩
  · refine ⟨_, _, _, rfl, rfl, ?_⟩
    refine ⟨_, _, _, rfl, rfl, ⟨rfl, nofun, rfl⟩, options_lieIn rfl _, by decide, ?_⟩
    exact ⟨_, _, _, rfl, rfl, ⟨rfl, nofun, rfl⟩, options_lieIn rfl _, by decide, rfl⟩
  · exact ⟨_, _, _, rfl, rfl, ⟨rfl, nofun, rfl⟩, options_lieIn rfl _, by decide, rfl⟩

end NestedSample

end SwaggerDoc
