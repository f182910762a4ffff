import SwaggerDoc.Proofs.Document.Blame
import SwaggerDoc.Proofs.Schema.Taken
import SwaggerDoc.Proofs.Session.Declared

/-!
Type names end where declarations begin.

A store comes about by filling in data, changing data, and validating declarations, schemas and
resources (`Store.Validated`). What is in a model is never changed, so all models are as validation
left them. Then no declaration has the name of a type left in its type, wherever the declaration
came from: a bare type, options, an element of a list or a declaration that was there already
(`type_names_are_closed`).
-/

namespace SwaggerDoc

namespace Store

/-! ## How stores come about -/

/-- The value is a model, or lies in one. -/
inductive InModel (s : Store) : Value → Prop
  | model {v : Value} {c : Cell} : s.deref? v = some c → c.attributes?.isSome → InModel s v
  | part {v w : Value} {c : Cell} :
    InModel s v → s.deref? v = some c → w ∈ c.parts → InModel s w

/-- Only data are new or have changed, and none that lie in a model. -/
structure ChangesData (s u : Store) : Prop where
  closed : u.Closed
  kept : ∀ {v}, s.InModel v → u.deref? v = s.deref? v
  old : ∀ {v c}, u.deref? v = some c → c.attributes?.isSome → s.deref? v = some c

/-- Stores in which all models come from validation and are as it left them. -/
inductive Validated : Store → Prop
  | empty : Validated empty
  | data {s u : Store} : Validated s → s.ChangesData u → Validated u
  | field {s : Store} {entries : List (Value × Value)} {d : FieldDraft} :
    Validated s → Draft.AllHeld s entries → Draft.field s entries = .accepted d →
    Validated (d.place s).2
  | schema {s : Store} {entries : List (Value × Value)} {d : SchemaDraft} :
    Validated s → Draft.ofSchema s (Draft.field s) entries = .accepted d →
    Validated (SchemaDraft.place s d).2
  | resource {s : Store} (r : Resource) : Validated s → Validated (r.place s).2

variable {s u : Store}

theorem ChangesData.keeps (changes : s.ChangesData u) : s.Keeps u s.InModel where
  deref?_eq inside := changes.kept inside
  parts inside cell _ part := .part inside cell part

theorem IsElement.of_keeps {values : Value → Prop} (keeps : s.Keeps u values) {v : Value}
    (element : s.IsElement v) (inside : values v) (held : u.Holds v) : u.IsElement v := by
  refine ⟨held, element.named, fun entries map => ?_⟩
  rw [keeps.deref?_eq inside] at map
  exact element.noFields entries map

theorem HoldsElements.of_keeps {values : Value → Prop} (keeps : s.Keeps u values)
    (closed : u.Closed) {tag : Value} (holds : s.HoldsElements tag) (inside : values tag) :
    u.HoldsElements tag := by
  intro items list e member
  have held := closed.holds_parts_of_deref? list e member
  rw [keeps.deref?_eq inside] at list
  exact (holds items list e member).of_keeps keeps (keeps.parts inside list e member) held

theorem Accepts.changesData (accepts : s.Accepts) (changes : s.ChangesData u) : u.Accepts := by
  have keeps := changes.keeps
  have attributes {v : Value} {f : FieldCell} (cell : s.deref? v = some (.field f)) :
      ∀ w ∈ f.attributes, s.InModel w :=
    fun _ part => .part (.model cell rfl) cell part
  constructor
  · intro v f cell
    have before := changes.old cell rfl
    obtain ⟨tag, o, type, modifiers⟩ := accepts.field before
    have inside := attributes before f.tag (by simp [FieldCell.attributes])
    have choices := attributes before f.choices (by simp [FieldCell.attributes])
    exact ⟨tag, o, type.of_keeps keeps inside,
      { modifiers with choices := keeps.deref?_of_some choices modifiers.choices }⟩
  · intro v f cell
    have before := changes.old cell rfl
    have inside := attributes before f.tag (by simp [FieldCell.attributes])
    exact (accepts.elements before).of_keeps keeps changes.closed inside
  · intro v fields cell
    have before := changes.old cell rfl
    obtain ⟨t, lies⟩ := accepts.schema before
    exact ⟨t, lies.of_keeps keeps (.model before rfl)⟩

theorem IsData.not_inModel (isData : s.IsData) {v : Value} : ¬ s.InModel v := by
  intro inside
  induction inside with
  | model cell model =>
    rw [isData cell] at model
    cases model
  | part _ _ _ ih => exact ih

/-- As long as there are only data, they can become any other data. -/
theorem IsData.changesData (before : s.IsData) (after : u.IsData) (closed : u.Closed) :
    s.ChangesData u where
  closed := closed
  kept inside := absurd inside before.not_inModel
  old cell model := by
    rw [after cell] at model
    cases model

theorem isData_empty : empty.IsData := by
  intro v c cell
  cases v with
  | scalar x => cases cell
  | ref p => exact absurd (lt_size_of_cell? cell) (Nat.not_lt_zero p)

/-- Everything leads somewhere, and all models are as validation leaves them. -/
theorem Validated.closed_and_accepts (validated : s.Validated) : s.Closed ∧ s.Accepts := by
  induction validated with
  | empty => exact ⟨closed_empty, isData_empty.accepts⟩
  | data _ changes ih => exact ⟨changes.closed, ih.2.changesData changes⟩
  | field _ held accepted ih =>
    obtain ⟨closed, accepts⟩ := ih
    have fit := Draft.comesToFit_ofMapping closed.gives _ _ _ held accepted
    exact ⟨(FieldDraft.closed_place (.refl _) closed fit).1,
      FieldDraft.accepts_place closed accepts (.refl _) closed accepts fit⟩
  | schema _ accepted ih =>
    obtain ⟨closed, accepts⟩ := ih
    have fit := Draft.allFit_ofSchema closed.gives (Draft.comesToFit_ofMapping closed.gives _) accepted
    exact ⟨(SchemaDraft.closed_place closed fit).1, SchemaDraft.accepts_place closed accepts fit⟩
  | resource r _ ih => exact ⟨(ih.1.place_resource r).1, ih.2.place_resource ih.1 r⟩

end Store

/-! ## What is left of type names -/

/-- The type of a declaration has tags for the names of types, and so has each element of a list;
and an element that holds fields is a schema. -/
structure FieldCell.HasTags (s : Store) (f : FieldCell) : Prop where
  type : ∀ t : FieldType, f.tag ≠ .ofText t.name
  element : ∀ items, s.deref? f.tag = some (.list items) → ∀ e ∈ items,
    ∀ t : FieldType, e ≠ .ofText t.name
  schema : ∀ items, s.deref? f.tag = some (.list items) → ∀ e ∈ items,
    ∀ entries, s.deref? e = some (.map entries) → lookupText? entries (text "fields") = none

section Accepted

variable {s : Store}

theorem Draft.ne_name_of_named {v : Value} (named : namedTag v = v) (t : FieldType) :
    v ≠ .ofText t.name := by
  rintro rfl
  exact ne_name_of_namedTag named t rfl

theorem Store.Accepts.hasTags (accepts : s.Accepts) {v : Value} {f : FieldCell}
    (cell : s.deref? v = some (.field f)) : f.HasTags s := by
  obtain ⟨tag, o, type, -⟩ := accepts.field cell
  have elements := accepts.elements cell
  exact ⟨Draft.ne_name_of_named type.named,
    fun items list e member => Draft.ne_name_of_named (elements items list e member).named,
    fun items list e member => (elements items list e member).noFields⟩

mutual

theorem AcceptedTag.LiesAt.named_of_visits {name : Text} {w : Value} :
    {tag : AcceptedTag} → {v : Value} → tag.LiesAt s v →
      ∀ x ∈ tag.visits name, x.tag = .plain w → Draft.namedTag w = w
  | .nested _, _, ⟨_, _, _, _, _, inside⟩ => AcceptedSchema.LiesIn.named_of_visits inside
  | .list, _, _ => List.forall_mem_nil _
  | .plain _, _, _ => List.forall_mem_nil _

/-- No visited field has the name of a type for its type. -/
theorem AcceptedSchema.LiesIn.named_of_visits {name : Text} {w : Value} :
    {t : AcceptedSchema} → {entries : List (Value × Value)} → t.LiesIn s entries →
      ∀ x ∈ t.visits name, x.tag = .plain w → Draft.namedTag w = w
  | .done, _, _ => List.forall_mem_nil _
  | .field field tag options rest, _, ⟨v, f, later, _, _, type, _, _, inside⟩ => by
    have others : ∀ x ∈ rest.visits name, x.tag = .plain w → Draft.namedTag w = w :=
      AcceptedSchema.LiesIn.named_of_visits inside
    rw [AcceptedSchema.visits]
    split
    · exact others
    · intro x member plain
      rcases List.mem_append.mp member with nested | member
      · exact AcceptedTag.LiesAt.named_of_visits type x nested plain
      · rcases List.mem_cons.mp member with rfl | later
        · obtain rfl : tag = .plain w := plain
          obtain ⟨same, -, named⟩ := type
          exact same ▸ named
        · exact others x later plain

end

/-- A tag that is not recognised in an accepted schema is not the name of a type. -/
theorem AcceptedSchema.LiesAt.ne_name_of_unrecognized {t : AcceptedSchema} {v : Value}
    (lies : t.LiesAt s v) {name : Text} {j : Journal} {tag : Value} {shown : Text}
    {field : Option Name}
    (failed : (s.definitionOf v name j).1 = .error (.unrecognized tag shown field))
    (type : FieldType) : tag.asText? ≠ some type.name := by
  rw [lies.definitionOf_eq name, Visit.pass_apply] at failed
  obtain ⟨entries, -, inside⟩ := lies
  cases found : (t.visits name).findSome? Visit.fault? with
  | none =>
    rw [found] at failed
    cases failed
  | some fault =>
    rw [found] at failed
    obtain rfl := Except.error.inj failed
    obtain ⟨before, x, after, visits, stops, -⟩ := List.findSome?_eq_some_iff.mp found
    obtain ⟨stray, plain, -⟩ := Visit.stray_of_unrecognized stops
    have member : x ∈ t.visits name := by
      rw [visits]
      exact List.mem_append_right _ List.mem_cons_self
    have named := inside.named_of_visits x member plain
    intro named'
    cases tag with
    | ref p => cases named'
    | scalar y =>
      have becomes : Draft.namedTag (.scalar y) = .scalar (.fieldType type) := by
        have text : y.asText? = some type.name := named'
        simp only [Draft.namedTag, text, Option.bind_some, FieldType.ofName?_name]
      rw [plain, ← named, becomes] at stray
      cases stray

end Accepted

/-- The names of types have become tags wherever a declaration lies in the store, and what is
accepted next is taken so, too. -/
structure Store.ClosesTypeNames (s : Store) : Prop where
  declared : ∀ v f, s.deref? v = some (.field f) → f.HasTags s
  taken : ∀ depth entries d v, Draft.ofMapping s depth entries = .accepted d →
    lookupText? entries (text "type") = some v → ∀ u : Store,
    ∃ f, (d.place u).2.deref? (d.place u).1 = some (.field f) ∧ s.TakesTag (d.place u).2 v f.tag
  /-- A tag that is not recognised in a schema is not the name of a type. -/
  recognized : ∀ v fields, s.deref? v = some (.schema fields) → ∀ name j tag shown field,
    (s.definitionOf v name j).1 = .error (.unrecognized tag shown field) →
    ∀ t : FieldType, tag.asText? ≠ some t.name
  /-- The attributes of a declaration are accepted for a declaration that has the same. -/
  rebuilt : ∀ v f, s.deref? v = some (.field f) →
    ∃ d f', FieldDraft.check s f.entries = .ok d ∧
      (d.place s).2.deref? (d.place s).1 = some (.field f') ∧
      f.SameAttributes s (d.place s).2 f'

/-- If all models come from validation, no name of a type is left where a tag belongs. -/
theorem type_names_are_closed {s : Store} (validated : s.Validated) : s.ClosesTypeNames := by
  obtain ⟨-, accepts⟩ := validated.closed_and_accepts
  constructor
  · intro v f cell
    exact accepts.hasTags cell
  · intro depth entries d v accepted given u
    exact Draft.takesTag_ofMapping accepted given u
  · intro v fields schema name j tag shown field failed
    obtain ⟨t, lies⟩ := accepts.schema schema
    exact lies.ne_name_of_unrecognized failed
  · intro v f cell
    obtain ⟨tag, o, type, lie⟩ := accepts.field cell
    obtain ⟨d, f', accepted, placed, same⟩ :=
      Draft.field_of_entries type lie (accepts.elements cell)
    have attributes : Check.attributes f.entries = .ok f.entries := if_pos rfl
    refine ⟨d, f', ?_, placed, same⟩
    rw [FieldDraft.check, attributes]
    exact congrArg (Checked.result (text "FieldSpec")) accepted

/-! ## Names in every position -/

namespace TypeNamesSample

/-- The data that a schema is made from. Type names stand for the type of a field, in a list and in
a schema inside a list; one name is no type. -/
def data : Store where
  cells := #[
    .map [(.ofText (text "count"), .ofText (text "Number"))],
    .map [(.ofText (text "fields"), .ref 0)],
    .list [.ref 1, .ofText (text "String")],
    .map [(.ofText (text "type"), .ref 2)],
    .map [(.ofText (text "items"), .ref 3), (.ofText (text "due"), .ofText (text "Date")),
      (.ofText (text "note"), .ofText (text "Note"))]]
  labels := 1
  given := []

/-- No options but the type. -/
def options : Options := ⟨false, none, .null, [], none, none, none, false⟩

/-- The schema as it is accepted. -/
def draft : SchemaDraft := [
  (text "items", .fresh (.list [
    .schema [(text "count", .fresh (.plain (.scalar (.fieldType .number))) options)],
    .plain (.scalar (.fieldType .string))]) options),
  (text "due", .fresh (.plain (.scalar (.fieldType .date))) options),
  (text "note", .fresh (.plain (.ofText (text "Note"))) options)]

/-- The store with the schema. -/
def store : Store := (SchemaDraft.place data draft).2

theorem isData_data : data.IsData := by
  intro v c cell
  cases v with
  | scalar x => cases cell
  | ref p =>
    have models : ∀ c ∈ data.cells.toList, c.attributes? = none := by decide
    exact models c (Array.mem_toList_iff.mpr (Array.mem_of_getElem? cell))

theorem accepted : Draft.ofSchema data (Draft.field data) [(.ofText (text "fields"), .ref 4)] =
    .accepted draft := by rfl

theorem validated_store : store.Validated := by
  have closed : data.Closed := Store.closed_of_cells rfl (by decide)
  have validated : data.Validated := .data .empty (Store.isData_empty.changesData isData_data closed)
  exact .schema validated accepted

end TypeNamesSample

open TypeNamesSample in
/-- In the sample the one name that is no type is not recognised. -/
theorem type_names_are_closed_in_sample :
    store.Validated ∧ store.ClosesTypeNames ∧
      ∃ shown, (store.definitionOf (.ref 17) (text "Order") ⟨none, []⟩).1 =
        .error (.unrecognized (.ofText (text "Note")) shown (some (.text (text "note")))) :=
  ⟨validated_store, type_names_are_closed validated_store, _, rfl⟩

end SwaggerDoc
