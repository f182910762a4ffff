import Mathlib.Data.List.Forall2
import SwaggerDoc.Proofs.Schema.Placed

/-!
How types are taken.

The type that is given for a field is read once, when the field is accepted: the name of a type
becomes its tag, and so does such a name among the elements of a list, where a mapping that holds
fields becomes a schema. All else is taken as it is (`Draft.takesTag_ofMapping`). What was read once
is not read differently again, so that the attributes of an accepted field are accepted as they are
(`Draft.field_of_entries`).
-/

namespace SwaggerDoc

/-! ## Given and taken -/

section Takes

variable (s u : Store)

/-- An element given for a list in the first store is taken as the other value in the second. -/
inductive Store.TakesElement : Value → Value → Prop
  | name (t : FieldType) : TakesElement (.ofText t.name) (.scalar (.fieldType t))
  | schema {v w fields : Value} {entries : List (Value × Value)} :
    s.deref? v = some (.map entries) → (lookupText? entries (text "fields")).isSome →
    u.deref? w = some (.schema fields) → TakesElement v w
  | same {v : Value} : (∀ t : FieldType, v ≠ .ofText t.name) →
    (∀ entries, s.deref? v = some (.map entries) → lookupText? entries (text "fields") = none) →
    TakesElement v v

/-- A type given in the first store is taken as the other value in the second. -/
inductive Store.TakesTag : Value → Value → Prop
  | name (t : FieldType) : TakesTag (.ofText t.name) (.scalar (.fieldType t))
  | list {v w : Value} {given taken : List Value} : s.deref? v = some (.list given) →
    u.deref? w = some (.list taken) → List.Forall₂ (Store.TakesElement s u) given taken →
    TakesTag v w
  | same {v : Value} : (∀ t : FieldType, v ≠ .ofText t.name) →
    (∀ items, s.deref? v ≠ some (.list items)) → TakesTag v v

end Takes

variable {s u : Store}

theorem Store.TakesElement.mono {t : Store} (extends' : u.Extends t) {v w : Value}
    (takes : s.TakesElement u v w) : s.TakesElement t v w := by
  cases takes with
  | name tag => exact .name tag
  | schema map given schema => exact .schema map given (extends'.deref?_of_some schema)
  | same noName noFields => exact .same noName noFields

theorem Store.TakesTag.mono {t : Store} (extends' : u.Extends t) {v w : Value}
    (takes : s.TakesTag u v w) : s.TakesTag t v w := by
  cases takes with
  | name tag => exact .name tag
  | list given taken elements =>
    exact .list given (extends'.deref?_of_some taken)
      (elements.imp fun _ _ element => element.mono extends')
  | same noName noList => exact .same noName noList

namespace Draft

/-- The name of a type becomes its tag, and all else stays. -/
theorem namedTag_cases (v : Value) :
    (∃ t : FieldType, v = .ofText t.name ∧ namedTag v = .scalar (.fieldType t)) ∨
      (∀ t : FieldType, v ≠ .ofText t.name) ∧ namedTag v = v := by
  by_cases name : ∃ t : FieldType, v = .ofText t.name
  · obtain ⟨t, rfl⟩ := name
    refine .inl ⟨t, rfl, ?_⟩
    simp only [namedTag, Scalar.asText?, Option.bind_some, FieldType.ofName?_name]
  · refine .inr ⟨fun t same => name ⟨t, same⟩, ?_⟩
    cases v with
    | ref p => rfl
    | scalar x =>
      cases x with
      | string t =>
        cases found : FieldType.ofName? t with
        | none => simp only [namedTag, Scalar.asText?, Option.bind_some, found]
        | some tag =>
          have named : tag.name = t := by simpa using List.find?_some found
          exact absurd ⟨tag, congrArg Value.ofText named.symm⟩ name
      | fieldType t => cases t <;> rfl
      | method m => cases m <;> rfl
      | _ => rfl

/-! ## Accepted types -/

section Nested

variable {fresh : List (Value × Value) → Checked FieldDraft}

theorem takesElement_place {v : Value} {d : ElementDraft} (done : ofElement s fresh v = .accepted d)
    (u : Store) : s.TakesElement (d.place u).2 v (d.place u).1 := by
  unfold ofElement at done
  split at done
  · next entries map =>
    have noName (t : FieldType) : v ≠ .ofText t.name := by
      rintro rfl
      cases map
    split at done
    · next given =>
      split at done
      · cases done
      · obtain ⟨fields, -, rfl⟩ := Checked.exists_of_map done
        exact .schema map given (Store.deref?_alloc _ _)
    · next noFields =>
      obtain rfl := Checked.accepted.inj done
      refine .same noName fun entries' map' => ?_
      obtain rfl := Cell.map.inj (Option.some.inj (map.symm.trans map'))
      exact Option.not_isSome_iff_eq_none.mp noFields
  · next noMap =>
    obtain rfl := Checked.accepted.inj done
    rw [ElementDraft.place]
    rcases namedTag_cases v with ⟨t, rfl, becomes⟩ | ⟨noName, stays⟩
    · rw [becomes]
      exact .name t
    · rw [stays]
      exact .same noName fun entries map => absurd map (noMap entries)

theorem takesElements_placeAll {items : List Value} {ds : List ElementDraft}
    (done : Checked.inOrder (ofElement s fresh) items = .accepted ds) (u : Store) :
    List.Forall₂ (s.TakesElement (ElementDraft.placeAll u ds).2) items
      (ElementDraft.placeAll u ds).1 := by
  induction items generalizing ds u with
  | nil =>
    obtain rfl := Checked.accepted.inj done
    exact .nil
  | cons v rest ih =>
    obtain ⟨d, later, rfl, head, tail⟩ := Checked.exists_of_inOrder_cons done
    have others := ElementDraft.extends_placeAll later (d.place u).2
    exact .cons ((takesElement_place head u).mono others) (ih tail (d.place u).2)

theorem takesTag_place {v : Value} {d : TagDraft} (done : ofTag s fresh v = .accepted d)
    (u : Store) : s.TakesTag (d.place u).2 v (d.place u).1 := by
  unfold ofTag at done
  split at done
  · next items list =>
    obtain ⟨ds, accepts, rfl⟩ := Checked.exists_of_map done
    refine .list list (Store.deref?_alloc _ _) ?_
    exact (takesElements_placeAll accepts u).imp fun _ _ takes => takes.mono (Store.extends_alloc _ _)
  · next noList =>
    obtain rfl := Checked.accepted.inj done
    rw [TagDraft.place]
    rcases namedTag_cases v with ⟨t, rfl, becomes⟩ | ⟨noName, stays⟩
    · rw [becomes]
      exact .name t
    · rw [stays]
      exact .same noName noList

end Nested

/-- Whatever bounds the nesting, a field that is accepted from options takes the type among them,
wherever it is placed. -/
theorem takesTag_ofMapping {depth : Nat} {entries : List (Value × Value)} {d : FieldDraft}
    {v : Value} (done : ofMapping s depth entries = .accepted d)
    (given : lookupText? entries (text "type") = some v) (u : Store) :
    ∃ f, (d.place u).2.deref? (d.place u).1 = some (.field f) ∧
      s.TakesTag (d.place u).2 v f.tag := by
  cases depth with
  | zero => cases done
  | succ depth =>
    obtain ⟨_, o, upToTag, -, rfl⟩ := Checked.exists_of_seq done
    obtain ⟨tag, typed, rfl⟩ := Checked.exists_of_map upToTag
    simp only [Check.optional, given] at typed
    obtain ⟨f, cell, same, -, filled⟩ := FieldDraft.exists_placed tag o u
    refine ⟨f, cell, ?_⟩
    rw [same]
    exact (takesTag_place (Checked.of_within typed) u).mono filled

end Draft

/-! ## Attributes given again -/

/-- The attributes of a declaration as entries of a mapping. -/
def FieldCell.entries (f : FieldCell) : List (Value × Value) :=
  (fieldAttributeNames.map Value.ofText).zip f.attributes

/-- The values are the same, or lists with the same items. -/
def Store.SameList (s u : Store) (v w : Value) : Prop :=
  v = w ∨ ∃ items, s.deref? v = some (.list items) ∧ u.deref? w = some (.list items)

/-- The second declaration has the attributes of the first, with lists of its own. -/
structure FieldCell.SameAttributes (s u : Store) (f f' : FieldCell) : Prop where
  tag : s.SameList u f.tag f'.tag
  choices : s.SameList u f.choices f'.choices
  others : f' = { f with tag := f'.tag, choices := f'.choices }

namespace Check

theorem string?_ofText? (t : Option Text) : string? (.ofText? t) = .accepted t := by
  cases t with
  | none => rfl
  | some t => rfl

theorem bound?_ofBound? (b : Option Bound) : bound? (.ofBound? b) = .accepted b := by
  cases b with
  | none => rfl
  | some b => cases b <;> rfl

theorem all_texts (texts : List Text) (n : Nat) :
    Checked.all (fun (a, n) => (string a).within (.index n)) ((texts.map .ofText).zipIdx n) =
      .accepted texts := by
  induction texts generalizing n with
  | nil => rfl
  | cons t rest ih =>
    rw [List.map_cons, List.zipIdx_cons, Checked.all, ih (n + 1)]
    rfl

theorem list_texts {v : Value} {texts : List Text}
    (list : s.deref? v = some (.list (texts.map .ofText))) :
    Check.list s string v = .accepted texts := by
  cases v with
  | scalar x => cases list
  | ref p =>
    have cell : s.cell? p = some (.list (texts.map .ofText)) := list
    simp only [Check.list, items?, cell]
    exact all_texts texts 0

end Check

/-- An accepted type is no name of a type. -/
theorem AcceptedTag.LiesAt.named {tag : AcceptedTag} {v : Value} (lies : tag.LiesAt s v) :
    Draft.namedTag v = v := by
  cases tag with
  | plain w => exact lies.2.2
  | nested element =>
    obtain ⟨first, rest, entries, list, -⟩ := lies
    cases v with
    | scalar x => cases list
    | ref p => rfl
  | list =>
    obtain ⟨items, list, -⟩ := lies
    cases v with
    | scalar x => cases list
    | ref p => rfl

namespace Draft

variable {f : FieldCell} {o : Options}

theorem options_of_lieIn (lie : o.LieIn s f) : options s f.entries = .accepted o := by
  have required : Check.optional f.entries "required" false Check.bool =
      (Check.bool f.required).within (.name (text "required")) := rfl
  have description : Check.optional f.entries "description" none Check.string? =
      (Check.string? f.description).within (.name (text "description")) := rfl
  have sample : Check.optional f.entries "example" .null .accepted = .accepted f.sample := rfl
  have choices : Check.optional f.entries "enum" [] (Check.list s Check.string) =
      (Check.list s Check.string f.choices).within (.name (text "enum")) := rfl
  have least : Check.optional f.entries "min" none Check.bound? =
      (Check.bound? f.least).within (.name (text "min")) := rfl
  have greatest : Check.optional f.entries "max" none Check.bound? =
      (Check.bound? f.greatest).within (.name (text "max")) := rfl
  have target : Check.optional f.entries "ref" none Check.string? =
      (Check.string? f.target).within (.name (text "ref")) := rfl
  have readonly : Check.optional f.entries "readonly" false Check.bool =
      (Check.bool f.readonly).within (.name (text "readonly")) := rfl
  rw [options, required, description, sample, choices, least, greatest, target, readonly,
    lie.required, lie.description, Check.string?_ofText?, lie.sample, Check.list_texts lie.choices,
    lie.least, lie.greatest, Check.bound?_ofBound?, Check.bound?_ofBound?, lie.target,
    Check.string?_ofText?, lie.readonly]
  rfl

theorem ofElement_of_isElement {fresh : List (Value × Value) → Checked FieldDraft} {v : Value}
    (element : s.IsElement v) : ofElement s fresh v = .accepted (.plain v) := by
  unfold ofElement
  split
  · next entries map =>
    rw [element.noFields entries map]
    rfl
  · rw [element.named]

theorem inOrder_of_areElements {fresh : List (Value × Value) → Checked FieldDraft}
    {items : List Value} (elements : ∀ e ∈ items, s.IsElement e) :
    Checked.inOrder (ofElement s fresh) items = .accepted (items.map .plain) := by
  induction items with
  | nil => rfl
  | cons v rest ih =>
    obtain ⟨first, later⟩ := List.forall_mem_cons.mp elements
    rw [Checked.inOrder, ofElement_of_isElement first, Checked.andThen, ih later]
    rfl

theorem placeAll_plain (u : Store) (items : List Value) :
    ElementDraft.placeAll u (items.map .plain) = (items, u) := by
  induction items with
  | nil => rfl
  | cons v rest ih => simp only [List.map_cons, ElementDraft.placeAll, ElementDraft.place, ih]

/-- A type that was taken once is taken as it is. -/
theorem exists_ofTag (fresh : List (Value × Value) → Checked FieldDraft) {v : Value}
    (named : namedTag v = v) (elements : s.HoldsElements v) :
    ∃ d, ofTag s fresh v = .accepted d ∧ s.SameList (d.place s).2 v (d.place s).1 := by
  unfold ofTag
  split
  · next items list =>
    rw [inOrder_of_areElements (elements items list)]
    refine ⟨_, rfl, .inr ⟨items, list, ?_⟩⟩
    rw [TagDraft.place, placeAll_plain]
    exact Store.deref?_alloc _ _
  · exact ⟨_, rfl, .inl named.symm⟩

/-- The attributes of an accepted declaration are accepted again, for a declaration that has the
same. -/
theorem field_of_entries {tag : AcceptedTag} (type : tag.LiesAt s f.tag) (lie : o.LieIn s f)
    (elements : s.HoldsElements f.tag) :
    ∃ d f', field s f.entries = .accepted d ∧
      (d.place s).2.deref? (d.place s).1 = some (.field f') ∧
      f.SameAttributes s (d.place s).2 f' := by
  obtain ⟨d, taken, same⟩ := exists_ofTag (ofMapping s (s.size + 1)) type.named elements
  have typed : Check.optional f.entries "type" (.plain .null) (ofTag s (ofMapping s (s.size + 1))) =
      (ofTag s (ofMapping s (s.size + 1)) f.tag).within (.name (text "type")) := rfl
  have accepted : field s f.entries = .accepted (.fresh d o) := by
    rw [field, ofMapping, typed, taken, options_of_lieIn lie]
    rfl
  obtain ⟨f', cell, sameTag, lie', filled⟩ := FieldDraft.exists_placed d o s
  refine ⟨_, f', accepted, cell, ?_, ?_, ?_⟩
  · rw [sameTag]
    rcases same with same | ⟨items, given, taken⟩
    · exact .inl same
    · exact .inr ⟨items, given, filled.deref?_of_some taken⟩
  · exact .inr ⟨_, lie.choices, lie'.choices⟩
  · have required := lie'.required.trans lie.required.symm
    have description := lie'.description.trans lie.description.symm
    have sample := lie'.sample.trans lie.sample.symm
    have least := lie'.least.trans lie.least.symm
    have greatest := lie'.greatest.trans lie.greatest.symm
    have target := lie'.target.trans lie.target.symm
    have readonly := lie'.readonly.trans lie.readonly.symm
    cases f'
    simp_all only

end Draft

end SwaggerDoc
