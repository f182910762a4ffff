import SwaggerDoc.Proofs.Definition.Trace
import SwaggerDoc.Proofs.Text.Split
import Mathlib.Data.List.Nodup

/-!
What the reports of a normalization tell about the fields they are about.

A report names a field and the definition that the field belongs to. The definition is called by
the name that was given and the names of the fields around, with points between. If no name of a
field is empty or has a point in it, cutting at the points gives the names of the fields around back
(`foldl_nestedName_injective`), so definition and field together give the path of the field; and no
path occurs twice, because the fields of one schema have names of their own.
-/

namespace SwaggerDoc

/-- A public field of a schema, or of a schema that the type of a public field holds. -/
structure PublicField where
  /-- The names of the fields around it, the outermost first. -/
  around : List Text
  name : Text
  tag : AcceptedTag
  options : Options

namespace PublicField

/-- The names on the way to a field, its own included. -/
def path (f : PublicField) : List Text := f.around ++ [f.name]

/-- A field of the schema that the type of another field holds. -/
def within (outer : Text) (f : PublicField) : PublicField := { f with around := outer :: f.around }

/-- What the definition is called that a field belongs to, if the whole is called by the name. -/
def definition (name : Text) (f : PublicField) : Text := f.around.foldl nestedName name

/-- The visit of a field. -/
def visit (name : Text) (f : PublicField) : Visit :=
  ⟨f.definition name, f.name, f.tag, f.options⟩

theorem path_within (outer : Text) (f : PublicField) : (f.within outer).path = outer :: f.path :=
  rfl

theorem visit_within (name outer : Text) (f : PublicField) :
    (f.within outer).visit name = f.visit (nestedName name outer) := rfl

theorem path_ne_nil (f : PublicField) : f.path ≠ [] :=
  List.append_ne_nil_of_right_ne_nil _ (List.cons_ne_nil _ _)

end PublicField

mutual

/-- The public fields of the schema that a type holds. -/
def AcceptedTag.publicFields : AcceptedTag → List PublicField
  | .nested element => element.publicFields
  | _ => []

/-- The public fields of a schema, those inside the type of a field before the field itself. -/
def AcceptedSchema.publicFields : AcceptedSchema → List PublicField
  | .done => []
  | .field name tag options rest =>
    if isPrivate name then rest.publicFields
    else tag.publicFields.map (.within name) ++ ⟨[], name, tag, options⟩ :: rest.publicFields

end

mutual

theorem AcceptedTag.visits_eq (name : Text) :
    (t : AcceptedTag) → t.visits name = t.publicFields.map (·.visit name)
  | .nested element => AcceptedSchema.visits_eq name element
  | .list => rfl
  | .plain _ => rfl

/-- A normalization visits the public fields. -/
theorem AcceptedSchema.visits_eq (name : Text) :
    (t : AcceptedSchema) → t.visits name = t.publicFields.map (·.visit name)
  | .done => rfl
  | .field field tag options rest => by
    rw [AcceptedSchema.visits, AcceptedSchema.publicFields]
    split
    · exact AcceptedSchema.visits_eq name rest
    · simp only [AcceptedTag.visits_eq, AcceptedSchema.visits_eq name rest, List.map_append,
        List.map_map, List.map_cons, Function.comp_def, PublicField.visit_within]
      rfl

end

/-! ## No path occurs twice -/

/-- The path of a field begins with the name of a field of the whole schema. -/
theorem AcceptedSchema.exists_head_path {t : AcceptedSchema} {f : PublicField}
    (member : f ∈ t.publicFields) : ∃ name ∈ t.names, ∃ inner, f.path = name :: inner := by
  induction t using AcceptedSchema.names.induct with
  | case1 => cases member
  | case2 name tag options rest later =>
    have behind (member : f ∈ rest.publicFields) :
        ∃ n ∈ (AcceptedSchema.field name tag options rest).names, ∃ inner, f.path = n :: inner := by
      obtain ⟨n, listed, begins⟩ := later member
      exact ⟨n, List.mem_cons_of_mem _ listed, begins⟩
    rw [AcceptedSchema.publicFields] at member
    split at member
    · exact behind member
    · rcases List.mem_append.mp member with inside | member
      · obtain ⟨g, -, rfl⟩ := List.mem_map.mp inside
        exact ⟨name, List.mem_cons_self, g.path, g.path_within name⟩
      · rcases List.mem_cons.mp member with rfl | member
        · exact ⟨name, List.mem_cons_self, [], rfl⟩
        · exact behind member

/-- A field in front brings no path that occurs already: its own path and those inside its type
begin with its name, which no later field has. -/
theorem AcceptedSchema.nodup_paths_field {name : Text} {tag : AcceptedTag} {options : Options}
    {rest : AcceptedSchema} (inner : (tag.publicFields.map PublicField.path).Nodup)
    (fresh : name ∉ rest.names) (later : (rest.publicFields.map PublicField.path).Nodup) :
    ((AcceptedSchema.field name tag options rest).publicFields.map PublicField.path).Nodup := by
  have elsewhere (inside : List Text) :
      name :: inside ∉ rest.publicFields.map PublicField.path := by
    intro member
    obtain ⟨f, listed, same⟩ := List.mem_map.mp member
    obtain ⟨other, named, begins, path⟩ := AcceptedSchema.exists_head_path listed
    obtain rfl := (List.cons.inj (same.symm.trans path)).1
    exact fresh named
  rw [AcceptedSchema.publicFields]
  split
  · exact later
  · rw [List.map_append, List.map_map, List.map_cons, List.nodup_append']
    refine ⟨?_, List.nodup_cons.mpr ⟨elsewhere [], later⟩, ?_⟩
    · have extended := inner.map fun p q (same : name :: p = name :: q) => (List.cons.inj same).2
      rwa [List.map_map] at extended
    · rw [List.disjoint_left]
      intro path member behind
      obtain ⟨f, -, rfl⟩ := List.mem_map.mp member
      rcases List.mem_cons.mp behind with own | behind
      · exact f.path_ne_nil (List.cons.inj own).2
      · exact elsewhere f.path behind

mutual

theorem AcceptedTag.LiesAt.nodup_paths {s : Store} {v : Value} :
    {t : AcceptedTag} → t.LiesAt s v → (t.publicFields.map PublicField.path).Nodup
  | .nested element, lies => by
    obtain ⟨first, rest, entries, -, -, inside⟩ := lies
    exact AcceptedSchema.LiesIn.nodup_paths inside
  | .list, _ => .nil
  | .plain _, _ => .nil

theorem AcceptedSchema.LiesIn.nodup_paths {s : Store} :
    {t : AcceptedSchema} → {entries : List (Value × Value)} → t.LiesIn s entries →
      (t.publicFields.map PublicField.path).Nodup
  | .done, _, _ => .nil
  | .field _ _ _ _, _, lies => by
    obtain ⟨v, f, later, -, -, type, -, fresh, inside⟩ := lies
    exact AcceptedSchema.nodup_paths_field (AcceptedTag.LiesAt.nodup_paths type) fresh
      (AcceptedSchema.LiesIn.nodup_paths inside)

end

/-! ## The name of a definition gives the fields around -/

/-- A name that is not empty and has no point in it. -/
def IsSimpleName (name : Text) : Prop := name ≠ [] ∧ 46 ∉ name

instance : DecidablePred IsSimpleName := fun name =>
  inferInstanceAs (Decidable (name ≠ [] ∧ 46 ∉ name))

/-- Names, each behind a point. -/
def dotted (names : List Text) : Text := names.flatMap (46 :: ·)

theorem split_append_dotted {front : Text} (one : 46 ∉ front) {names : List Text}
    (simple : ∀ n ∈ names, IsSimpleName n) :
    Text.split 46 (front ++ dotted names) = front :: names := by
  induction names generalizing front with
  | nil => rw [dotted, List.flatMap_nil, List.append_nil, Text.split_of_not_mem one]
  | cons name names ih =>
    obtain ⟨first, rest⟩ := List.forall_mem_cons.mp simple
    rw [dotted, List.flatMap_cons, List.cons_append, Text.split_append_separator,
      Text.split_of_not_mem one, ← dotted, ih first.2 rest, List.singleton_append]

theorem dotted_injective {names names' : List Text} (simple : ∀ n ∈ names, IsSimpleName n)
    (simple' : ∀ n ∈ names', IsSimpleName n) (same : dotted names = dotted names') :
    names = names' := by
  have cut : Text.split 46 ([] ++ dotted names) = [] :: names :=
    split_append_dotted List.not_mem_nil simple
  rw [same, split_append_dotted List.not_mem_nil simple'] at cut
  exact (List.cons.inj cut).2.symm

theorem nestedName_of_ne_nil {outer : Text} (given : outer ≠ []) (field : Text) :
    nestedName outer field = outer ++ 46 :: field := by
  simp [nestedName, given, text]

/-- A definition with a name is called by it and the names of the fields around, behind points. -/
theorem foldl_nestedName {name : Text} (given : name ≠ []) (names : List Text) :
    names.foldl nestedName name = name ++ dotted names := by
  induction names generalizing name with
  | nil => rw [List.foldl_nil, dotted, List.flatMap_nil, List.append_nil]
  | cons field names ih =>
    have longer : name ++ 46 :: field ≠ [] := List.append_ne_nil_of_left_ne_nil given _
    rw [List.foldl_cons, nestedName_of_ne_nil given, ih longer, dotted, dotted, List.flatMap_cons,
      List.append_assoc]

/-- Without a name the first of the fields around stands in front. -/
theorem foldl_nestedName_nil {first : Text} (given : first ≠ []) (names : List Text) :
    (first :: names).foldl nestedName [] = first ++ dotted names :=
  foldl_nestedName given names

section Simple

variable {names names' : List Text} (simple : ∀ n ∈ names, IsSimpleName n)

include simple

theorem foldl_nestedName_eq_nil_iff : names.foldl nestedName [] = [] ↔ names = [] := by
  cases names with
  | nil => exact iff_of_true rfl rfl
  | cons first names =>
    have given := (simple first List.mem_cons_self).1
    rw [foldl_nestedName_nil given, List.append_eq_nil_iff]
    exact iff_of_false (fun nothing => given nothing.1) (List.cons_ne_nil _ _)

/-- Without a name, cutting at the points gives the names of the fields around, if there are any. -/
theorem split_foldl_nestedName (some : names ≠ []) :
    Text.split 46 (names.foldl nestedName []) = names := by
  cases names with
  | nil => exact absurd rfl some
  | cons first names =>
    obtain ⟨⟨given, one⟩, rest⟩ := List.forall_mem_cons.mp simple
    rw [foldl_nestedName_nil given, split_append_dotted one rest]

/-- Among simple names, those of the fields around are known from what the definition is called. -/
theorem foldl_nestedName_injective {name : Text} (simple' : ∀ n ∈ names', IsSimpleName n)
    (same : names.foldl nestedName name = names'.foldl nestedName name) : names = names' := by
  by_cases given : name = []
  · subst given
    have none_iff : names = [] ↔ names' = [] := by
      rw [← foldl_nestedName_eq_nil_iff simple, same, foldl_nestedName_eq_nil_iff simple']
    by_cases none : names = []
    · rw [none, none_iff.mp none]
    · rw [← split_foldl_nestedName simple none, same,
        split_foldl_nestedName simple' (none_iff.not.mp none)]
  · rw [foldl_nestedName given, foldl_nestedName given] at same
    exact dotted_injective simple simple' (List.append_cancel_left same)

end Simple

/-- A point in a name could be taken for one between two names. -/
example : [text "a", text "b"].foldl nestedName (text "M") =
    [text "a.b"].foldl nestedName (text "M") := by
  decide

/-! ## Reports tell fields apart -/

namespace AcceptedSchema

/-- The names of the public fields are simple, also of those in schemas that types hold. -/
def HasSimpleNames (t : AcceptedSchema) : Prop :=
  ∀ f ∈ t.publicFields, ∀ name ∈ f.path, IsSimpleName name

instance (t : AcceptedSchema) : Decidable t.HasSimpleNames :=
  inferInstanceAs (Decidable (∀ f ∈ t.publicFields, ∀ name ∈ f.path, IsSimpleName name))

/-- The reports noted for a schema, which is called by the name, tell its fields apart. -/
structure TellsApart (t : AcceptedSchema) (name : Text) (noted : List Fallback) : Prop where
  /-- No two reports have the same definition and the same field. -/
  nodup : (noted.map fun r => (r.definition, r.field)).Nodup
  /-- A report is about a reference among the fields. Its definition and field fit no other field,
  so they give the path of this one. -/
  unique : ∀ r ∈ noted, ∃ f ∈ t.publicFields, (f.visit name).fallback? = some r ∧
    ∀ g ∈ t.publicFields, g.definition name = r.definition → g.name = r.field → g = f

variable {t : AcceptedSchema}

/-- Among fields with simple names, the definition and the name give the path. -/
theorem HasSimpleNames.path_eq (simple : t.HasSimpleNames) {f g : PublicField}
    (left : f ∈ t.publicFields) (right : g ∈ t.publicFields) {name : Text}
    (definition : f.definition name = g.definition name) (field : f.name = g.name) :
    f.path = g.path := by
  have around : f.around = g.around :=
    foldl_nestedName_injective (fun n member => simple f left n (List.mem_append_left _ member))
      (fun n member => simple g right n (List.mem_append_left _ member)) definition
  rw [PublicField.path, PublicField.path, around, field]

/-- The reports of some visits have the definitions and the fields of some of them. -/
theorem sublist_fallbacks (visits : List Visit) :
    ((visits.filterMap Visit.fallback?).map fun r => (r.definition, r.field)).Sublist
      (visits.map fun x => (x.definition, x.field)) := by
  induction visits with
  | nil => exact .slnil
  | cons x visits ih =>
    cases reported : x.fallback? with
    | none =>
      rw [List.filterMap_cons_none reported]
      exact ih.cons _
    | some r =>
      obtain ⟨tag, -, rfl⟩ := Option.map_eq_some_iff.mp reported
      rw [List.filterMap_cons_some reported]
      exact ih.cons_cons _

/-- Whatever part of the visits has been passed, the reports noted tell the fields apart. -/
theorem tellsApart_of_sublist (nodup : (t.publicFields.map PublicField.path).Nodup)
    (simple : t.HasSimpleNames) {name : Text} {passed : List Visit}
    (part : passed.Sublist (t.visits name)) :
    t.TellsApart name (passed.filterMap Visit.fallback?) := by
  have eq_of_same {f g : PublicField} (left : f ∈ t.publicFields) (right : g ∈ t.publicFields)
      (definition : f.definition name = g.definition name) (field : f.name = g.name) : f = g :=
    List.inj_on_of_nodup_map nodup left right (simple.path_eq left right definition field)
  constructor
  · have distinct : ((t.visits name).map fun x => (x.definition, x.field)).Nodup := by
      rw [t.visits_eq name, List.map_map]
      refine List.Nodup.map_on (fun f left g right same => ?_) nodup.of_map
      exact eq_of_same left right (Prod.mk.inj same).1 (Prod.mk.inj same).2
    exact ((sublist_fallbacks passed).trans (part.map _)).nodup distinct
  · intro r member
    obtain ⟨x, visited, reported⟩ := List.mem_filterMap.mp member
    rw [t.visits_eq name] at part
    obtain ⟨f, listed, rfl⟩ := List.mem_map.mp (part.subset visited)
    obtain ⟨tag, -, rfl⟩ := Option.map_eq_some_iff.mp reported
    exact ⟨f, listed, reported, fun g other => eq_of_same other listed⟩

end AcceptedSchema

/-- The reports that normalizing an accepted schema notes tell its fields apart, whether it comes to
a definition or breaks off. -/
theorem reports_tell_fields_apart {s : Store} {t : AcceptedSchema} {v : Value}
    (held : t.LiesAt s v) (simple : t.HasSimpleNames) (name : Text) (j : Journal) :
    ∃ noted, (s.definitionOf v name j).2 = j.noteAll noted ∧ t.TellsApart name noted := by
  rw [held.definitionOf_eq name, Visit.pass_apply]
  obtain ⟨entries, -, inside⟩ := held
  exact ⟨_, rfl, AcceptedSchema.tellsApart_of_sublist inside.nodup_paths simple
    (List.takeWhile_sublist _)⟩

namespace LabelSample

open NestedSample (options declaration options_lieIn)

/-- A schema with an owner, which two schemas inside it have as well, one of them at two places. -/
def schema : AcceptedSchema :=
  let lead : AcceptedSchema :=
    .field (text "owner") (.plain (.scalar (.fieldType .oid))) options .done
  .field (text "owner") (.plain (.scalar (.fieldType .objectId))) options <|
  .field (text "team")
    (.nested <|
      .field (text "owner") (.plain (.scalar (.fieldType .objectId))) options <|
      .field (text "lead") (.nested lead) options .done)
    options <|
  .field (text "lead") (.nested lead) options .done

/-- A store that holds the schema at its last place. -/
def store : Store where
  cells := #[
    .list [],
    .field (declaration (.scalar (.fieldType .objectId))),
    .field (declaration (.scalar (.fieldType .oid))),
    .map [(.ofText (text "owner"), .ref 2)],
    .schema (.ref 3),
    .list [.ref 4],
    .field (declaration (.ref 5)),
    .map [(.ofText (text "owner"), .ref 1), (.ofText (text "lead"), .ref 6)],
    .schema (.ref 7),
    .list [.ref 8],
    .field (declaration (.ref 9)),
    .map [(.ofText (text "owner"), .ref 1), (.ofText (text "team"), .ref 10),
      (.ofText (text "lead"), .ref 6)],
    .schema (.ref 11)]
  labels := 1
  given := []

theorem schema_liesAt : schema.LiesAt store (.ref 12) := by
  have lead : (AcceptedTag.nested <| .field (text "owner") (.plain (.scalar (.fieldType .oid)))
      options .done).LiesAt store (.ref 5) := by
    refine ⟨_, _, _, rfl, rfl, ?_⟩
    exact ⟨_, _, _, rfl, rfl, ⟨rfl, nofun, rfl⟩, options_lieIn rfl _, by decide, rfl⟩
  refine ⟨_, rfl, ?_⟩
  refine ⟨_, _, _, rfl, rfl, ⟨rfl, nofun, rfl⟩, options_lieIn rfl _, by decide, ?_⟩
  refine ⟨_, _, _, rfl, rfl, ?_, options_lieIn rfl _, by decide, ?_⟩
  · refine ⟨_, _, _, rfl, rfl, ?_⟩
    refine ⟨_, _, _, rfl, rfl, ⟨rfl, nofun, rfl⟩, options_lieIn rfl _, by decide, ?_⟩
    exact ⟨_, _, _, rfl, rfl, lead, options_lieIn rfl _, by decide, rfl⟩
  · exact ⟨_, _, _, rfl, rfl, lead, options_lieIn rfl _, by decide, rfl⟩

end LabelSample

open LabelSample in
/-- Four references of the same name are reported, and told apart although the whole has no name. -/
theorem reports_of_label_sample :
    schema.HasSimpleNames ∧
      (store.definitionOf (.ref 12) [] ⟨some [], []⟩).2.kept =
        some [⟨[], text "owner", text "ObjectId"⟩, ⟨text "team", text "owner", text "ObjectId"⟩,
          ⟨text "team.lead", text "owner", text "Oid"⟩, ⟨text "lead", text "owner", text "Oid"⟩] ∧
      ∃ noted, (store.definitionOf (.ref 12) [] ⟨some [], []⟩).2 =
          Journal.noteAll ⟨some [], []⟩ noted ∧ schema.TellsApart [] noted := by
  have simple : schema.HasSimpleNames := by decide
  refine ⟨simple, ?_, reports_tell_fields_apart schema_liesAt simple [] ⟨some [], []⟩⟩
  rw [schema_liesAt.definitionOf_eq []]
  rfl

end SwaggerDoc
