import SwaggerDoc.Proofs.Schema.Kept
import SwaggerDoc.Proofs.Schema.Validation

/-!
Validated schemas are accepted where they are placed.

A fit draft fills new places only and keeps a closed store closed. If whatever declarations and
schemas the store had before are accepted, so is the new schema: every option has its own type,
every type name has become a tag, and the schemas in list types are accepted too.
-/

namespace SwaggerDoc

/-! ## Placing fills new places -/

mutual

theorem TagDraft.extends_place : (d : TagDraft) → (s : Store) → s.Extends (d.place s).2
  | .plain _, s => .refl s
  | .list elements, s =>
    (ElementDraft.extends_placeAll elements s).trans (Store.extends_alloc _ _)

theorem ElementDraft.extends_place : (d : ElementDraft) → (s : Store) → s.Extends (d.place s).2
  | .plain _, s => .refl s
  | .schema fields, s =>
    (FieldDraft.extends_placeAll fields s).trans
      ((Store.extends_alloc _ _).trans (Store.extends_alloc _ _))

theorem ElementDraft.extends_placeAll :
    (ds : List ElementDraft) → (s : Store) → s.Extends (ElementDraft.placeAll s ds).2
  | [], s => .refl s
  | d :: rest, s => (d.extends_place s).trans (ElementDraft.extends_placeAll rest _)

theorem FieldDraft.extends_place : (d : FieldDraft) → (s : Store) → s.Extends (d.place s).2
  | .stored _, s => .refl s
  | .fresh tag _, s =>
    (tag.extends_place s).trans ((Store.extends_alloc _ _).trans (Store.extends_alloc _ _))

theorem FieldDraft.extends_placeAll :
    (ds : List (Text × FieldDraft)) → (s : Store) → s.Extends (FieldDraft.placeAll s ds).2
  | [], s => .refl s
  | (_, d) :: rest, s => (d.extends_place s).trans (FieldDraft.extends_placeAll rest _)

end

/-! ## Placing keeps a store closed -/

theorem holds_ofText? (s : Store) (t : Option Text) : s.Holds ((t.map .ofText).getD .null) := by
  cases t <;> exact s.holds_scalar _

theorem holds_ofBound? (s : Store) (b : Option Check.Bound) :
    s.Holds ((b.map Check.Bound.value).getD .null) := by
  cases b with
  | none => exact s.holds_scalar _
  | some b => cases b <;> exact s.holds_scalar _

theorem holds_texts (s : Store) (texts : List Text) :
    ∀ v ∈ (Cell.list (texts.map .ofText)).parts, s.Holds v := by
  intro v part
  obtain ⟨t, -, rfl⟩ := List.mem_map.mp part
  exact s.holds_scalar _

mutual

theorem TagDraft.closed_place {s u : Store} (extends' : s.Extends u) (closed : u.Closed) :
    {d : TagDraft} → d.IsFit s s.Holds → (d.place u).2.Closed ∧ (d.place u).2.Holds (d.place u).1
  | .plain _, fit => ⟨closed, fit.1.mono extends'⟩
  | .list _, fit => by
    obtain ⟨closed', inside⟩ := ElementDraft.closed_placeAll extends' closed fit
    exact ⟨closed'.alloc inside, Store.holds_alloc _ _⟩

theorem ElementDraft.closed_place {s u : Store} (extends' : s.Extends u) (closed : u.Closed) :
    {d : ElementDraft} → d.IsFit s s.Holds → (d.place u).2.Closed ∧ (d.place u).2.Holds (d.place u).1
  | .plain _, fit => ⟨closed, fit.held.mono extends'⟩
  | .schema _, fit => by
    obtain ⟨closed', inside⟩ := FieldDraft.closed_placeAll extends' closed fit
    have closed'' := closed'.alloc (Cell.forall_mem_parts_map inside)
    refine ⟨closed''.alloc fun v part => ?_, Store.holds_alloc _ _⟩
    rw [List.mem_singleton.mp part]
    exact Store.holds_alloc _ _

theorem ElementDraft.closed_placeAll {s u : Store} (extends' : s.Extends u) (closed : u.Closed) :
    {ds : List ElementDraft} → ElementDraft.AllFit s s.Holds ds →
      (ElementDraft.placeAll u ds).2.Closed ∧
        ∀ v ∈ (ElementDraft.placeAll u ds).1, (ElementDraft.placeAll u ds).2.Holds v
  | [], _ => ⟨closed, List.forall_mem_nil _⟩
  | d :: rest, fit => by
    have placed := d.extends_place u
    obtain ⟨closed', first⟩ := ElementDraft.closed_place extends' closed fit.1
    obtain ⟨closed'', others⟩ :=
      ElementDraft.closed_placeAll (extends'.trans placed) closed' fit.2
    refine ⟨closed'', fun v member => ?_⟩
    rcases List.mem_cons.mp member with rfl | member
    · exact first.mono (ElementDraft.extends_placeAll rest _)
    · exact others v member

theorem FieldDraft.closed_place {s u : Store} (extends' : s.Extends u) (closed : u.Closed) :
    {d : FieldDraft} → d.IsFit s s.Holds → (d.place u).2.Closed ∧ (d.place u).2.Holds (d.place u).1
  | .stored _, ⟨_, cell⟩ => ⟨closed, (Store.Holds.of_deref? cell).mono extends'⟩
  | .fresh tag o, fit => by
    obtain ⟨closed', type⟩ := TagDraft.closed_place extends' closed fit.1
    have placed := tag.extends_place u
    have listed := Store.extends_alloc (tag.place u).2 (.list (o.choices.map .ofText))
    refine ⟨(closed'.alloc (holds_texts _ _)).alloc fun v part => ?_, Store.holds_alloc _ _⟩
    simp only [Cell.parts, FieldCell.attributes, List.mem_cons, List.not_mem_nil, or_false] at part
    rcases part with rfl | rfl | rfl | rfl | rfl | rfl | rfl | rfl | rfl
    · exact type.mono listed
    · exact Store.holds_scalar _ _
    · exact holds_ofText? _ _
    · exact fit.2.mono (extends'.trans (placed.trans listed))
    · exact Store.holds_alloc _ _
    · exact holds_ofBound? _ _
    · exact holds_ofBound? _ _
    · exact holds_ofText? _ _
    · exact Store.holds_scalar _ _

theorem FieldDraft.closed_placeAll {s u : Store} (extends' : s.Extends u) (closed : u.Closed) :
    {ds : List (Text × FieldDraft)} → FieldDraft.AllFit s s.Holds ds →
      (FieldDraft.placeAll u ds).2.Closed ∧
        ∀ e ∈ (FieldDraft.placeAll u ds).1,
          (FieldDraft.placeAll u ds).2.Holds e.1 ∧ (FieldDraft.placeAll u ds).2.Holds e.2
  | [], _ => ⟨closed, List.forall_mem_nil _⟩
  | (name, d) :: rest, fit => by
    have placed := d.extends_place u
    obtain ⟨closed', first⟩ := FieldDraft.closed_place extends' closed fit.2.1
    obtain ⟨closed'', others⟩ :=
      FieldDraft.closed_placeAll (extends'.trans placed) closed' fit.2.2
    refine ⟨closed'', fun e member => ?_⟩
    rcases List.mem_cons.mp member with rfl | member
    · exact ⟨Store.holds_scalar _ _, first.mono (FieldDraft.extends_placeAll rest _)⟩
    · exact others e member

end

theorem SchemaDraft.extends_place (d : SchemaDraft) (s : Store) :
    s.Extends (SchemaDraft.place s d).2 :=
  ElementDraft.extends_place (.schema d) s

theorem SchemaDraft.closed_place {s : Store} (closed : s.Closed) {d : SchemaDraft}
    (fit : FieldDraft.AllFit s s.Holds d) :
    (SchemaDraft.place s d).2.Closed ∧ (SchemaDraft.place s d).2.Holds (SchemaDraft.place s d).1 := by
  have fits : (ElementDraft.schema d).IsFit s s.Holds := fit
  exact ElementDraft.closed_place (.refl s) closed fits

/-! ## Placing brings in given examples -/

theorem Store.Samples.alloc {s : Store} {given : Value → Prop} (samples : s.Samples given) {c : Cell}
    (new : ∀ f, c = .field f → given f.sample) : (s.alloc c).2.Samples given := by
  intro p f cell
  rcases cell?_alloc_eq_some cell with before | ⟨-, same⟩
  · exact samples p f before
  · exact new f same.symm

theorem Store.Samples.alloc_data {s : Store} {given : Value → Prop} (samples : s.Samples given)
    {c : Cell} (data : c.attributes? = none) : (s.alloc c).2.Samples given := by
  refine samples.alloc ?_
  rintro f rfl
  cases data

mutual

theorem TagDraft.samples_place {s u : Store} {given : Value → Prop} (samples : u.Samples given) :
    {d : TagDraft} → d.IsFit s given → (d.place u).2.Samples given
  | .plain _, _ => samples
  | .list elements, fit =>
    (ElementDraft.samples_placeAll samples fit).alloc_data
      (c := .list (ElementDraft.placeAll u elements).1) rfl

theorem ElementDraft.samples_place {s u : Store} {given : Value → Prop} (samples : u.Samples given) :
    {d : ElementDraft} → d.IsFit s given → (d.place u).2.Samples given
  | .plain _, _ => samples
  | .schema fields, fit => by
    have inside := FieldDraft.samples_placeAll samples fit
    have mapped := inside.alloc_data (c := .map (FieldDraft.placeAll u fields).1) rfl
    refine mapped.alloc fun f other => ?_
    cases other

theorem ElementDraft.samples_placeAll {s u : Store} {given : Value → Prop}
    (samples : u.Samples given) : {ds : List ElementDraft} → ElementDraft.AllFit s given ds →
      (ElementDraft.placeAll u ds).2.Samples given
  | [], _ => samples
  | _ :: _, fit =>
    ElementDraft.samples_placeAll (ElementDraft.samples_place samples fit.1) fit.2

theorem FieldDraft.samples_place {s u : Store} {given : Value → Prop} (samples : u.Samples given) :
    {d : FieldDraft} → d.IsFit s given → (d.place u).2.Samples given
  | .stored _, _ => samples
  | .fresh _ o, fit => by
    have typed := TagDraft.samples_place samples fit.1
    have listed := typed.alloc_data (c := .list (o.choices.map .ofText)) rfl
    refine listed.alloc fun f declared => ?_
    obtain rfl := Cell.field.inj declared
    exact fit.2

theorem FieldDraft.samples_placeAll {s u : Store} {given : Value → Prop}
    (samples : u.Samples given) : {ds : List (Text × FieldDraft)} → FieldDraft.AllFit s given ds →
      (FieldDraft.placeAll u ds).2.Samples given
  | [], _ => samples
  | _ :: _, fit => FieldDraft.samples_placeAll (FieldDraft.samples_place samples fit.2.1) fit.2.2

end

theorem SchemaDraft.samples_place {s u : Store} {given : Value → Prop} (samples : u.Samples given)
    {d : SchemaDraft} (fit : FieldDraft.AllFit s given d) :
    (SchemaDraft.place u d).2.Samples given := by
  have fits : (ElementDraft.schema d).IsFit s given := fit
  exact ElementDraft.samples_place samples fits

/-! ## Placed elements -/

theorem Store.IsElement.mono {s u : Store} {v : Value} (element : s.IsElement v)
    (extends' : s.Extends u) : u.IsElement v := by
  refine ⟨element.held.mono extends', element.named, fun entries map => ?_⟩
  rw [extends'.deref?_eq element.held] at map
  exact element.noFields entries map

/-- If the type is a list, its elements are as validation leaves them. -/
def Store.HoldsElements (s : Store) (tag : Value) : Prop :=
  ∀ items, s.deref? tag = some (.list items) → ∀ e ∈ items, s.IsElement e

theorem Store.HoldsElements.mono {s u : Store} {tag : Value} (holds : s.HoldsElements tag)
    (held : s.Holds tag) (extends' : s.Extends u) : u.HoldsElements tag := by
  intro items list e member
  rw [extends'.deref?_eq held] at list
  exact (holds items list e member).mono extends'

theorem ElementDraft.isElement_place {s u : Store} (extends' : s.Extends u) {d : ElementDraft}
    (fit : d.IsFit s s.Holds) : (d.place u).2.IsElement (d.place u).1 := by
  cases d with
  | plain v => exact Store.IsElement.mono fit extends'
  | schema fields =>
    refine ⟨Store.holds_alloc _ _, rfl, fun entries map => ?_⟩
    cases (Store.deref?_alloc _ _).symm.trans map

theorem ElementDraft.areElements_placeAll {s u : Store} (extends' : s.Extends u) :
    {ds : List ElementDraft} → ElementDraft.AllFit s s.Holds ds →
      ∀ e ∈ (ElementDraft.placeAll u ds).1, (ElementDraft.placeAll u ds).2.IsElement e
  | [], _ => List.forall_mem_nil _
  | d :: rest, fit => by
    have first := ElementDraft.isElement_place extends' fit.1
    exact List.forall_mem_cons.mpr ⟨first.mono (ElementDraft.extends_placeAll rest _),
      ElementDraft.areElements_placeAll (extends'.trans (d.extends_place u)) fit.2⟩

theorem TagDraft.holdsElements_place {s u : Store} (extends' : s.Extends u) {d : TagDraft}
    (fit : d.IsFit s s.Holds) : (d.place u).2.HoldsElements (d.place u).1 := by
  intro items list e member
  cases d with
  | plain v =>
    obtain ⟨held, -, other⟩ := fit
    have same : u.deref? v = s.deref? v := extends'.deref?_eq held
    exact absurd (same.symm.trans list) (other items)
  | list elements =>
    obtain rfl := Cell.list.inj (Option.some.inj ((Store.deref?_alloc _ _).symm.trans list))
    exact (ElementDraft.areElements_placeAll extends' fit e member).mono (Store.extends_alloc _ _)

/-! ## What is placed is accepted -/

/-- Every declaration and every schema in the store is as validation leaves it. -/
structure Store.Accepts (s : Store) : Prop where
  field : ∀ {v f}, s.deref? v = some (.field f) →
    ∃ (tag : AcceptedTag) (o : Options), tag.LiesAt s f.tag ∧ o.LieIn s f
  elements : ∀ {v f}, s.deref? v = some (.field f) → s.HoldsElements f.tag
  schema : ∀ {v fields}, s.deref? v = some (.schema fields) →
    ∃ t : AcceptedSchema, t.LiesAt s v

/-- A declaration is placed behind its type, with its options. -/
theorem FieldDraft.exists_placed (tag : TagDraft) (o : Options) (u : Store) :
    ∃ f, ((FieldDraft.fresh tag o).place u).2.deref? ((FieldDraft.fresh tag o).place u).1 =
        some (.field f) ∧
      f.tag = (tag.place u).1 ∧ o.LieIn ((FieldDraft.fresh tag o).place u).2 f ∧
      (tag.place u).2.Extends ((FieldDraft.fresh tag o).place u).2 := by
  have listed := Store.extends_alloc (tag.place u).2 (.list (o.choices.map .ofText))
  have declared := Store.extends_alloc
    (Store.alloc (tag.place u).2 (.list (o.choices.map .ofText))).2
  refine ⟨_, Store.deref?_alloc _ _, rfl, ⟨rfl, rfl, rfl, ?_, rfl, rfl, rfl, rfl⟩,
    listed.trans (declared _)⟩
  exact (declared _).deref?_of_some (Store.deref?_alloc _ _)

/-- A schema is placed behind the mapping with its fields. -/
theorem Store.schemaEntries?_placed (u : Store) (entries : List (Value × Value)) :
    ((u.alloc (.map entries)).2.alloc (.schema (u.alloc (.map entries)).1)).2.schemaEntries?
      ((u.alloc (.map entries)).2.alloc (.schema (u.alloc (.map entries)).1)).1 = some entries := by
  have map := (Store.extends_alloc (u.alloc (.map entries)).2
    (.schema (u.alloc (.map entries)).1)).deref?_of_some (u.deref?_alloc (.map entries))
  rw [Store.schemaEntries?, Store.deref?_alloc]
  simp only [map]

mutual

theorem TagDraft.exists_liesAt {s u : Store} (before : s.Closed) (accepts : s.Accepts)
    (extends' : s.Extends u) (closed : u.Closed) :
    {d : TagDraft} → d.IsFit s s.Holds → ∃ tag : AcceptedTag, tag.LiesAt (d.place u).2 (d.place u).1
  | .plain v, ⟨held, named, other⟩ => by
    refine ⟨.plain v, rfl, fun items => ?_, named⟩
    have same : u.deref? v = s.deref? v := extends'.deref?_eq held
    rw [TagDraft.place, same]
    exact other items
  | .list [], _ => ⟨.list, [], Store.deref?_alloc _ _, nofun⟩
  | .list (element :: rest), fit => by
    have placed := element.extends_place u
    have others := ElementDraft.extends_placeAll rest (element.place u).2
    obtain ⟨closed', first⟩ := ElementDraft.closed_place extends' closed fit.1
    have filled := others.trans
      (Store.extends_alloc _ (.list (ElementDraft.placeAll u (element :: rest)).1))
    have cell := Store.deref?_alloc (ElementDraft.placeAll u (element :: rest)).2
      (.list (ElementDraft.placeAll u (element :: rest)).1)
    rcases ElementDraft.isSchema_or_not before accepts extends' closed fit.1 with
      ⟨t, entries, found, inside⟩ | other
    · exact ⟨.nested t, (element.place u).1, (ElementDraft.placeAll (element.place u).2 rest).1,
        entries, cell, filled.schemaEntries?_of_some found, inside.mono closed' filled⟩
    · refine ⟨.list, _, cell, fun leading leads fields => ?_⟩
      obtain rfl := Option.some.inj leads
      have same := filled.deref?_eq first
      exact same ▸ other fields

/-- An element of a list type is an accepted schema, or it is no schema at all. -/
theorem ElementDraft.isSchema_or_not {s u : Store} (before : s.Closed) (accepts : s.Accepts)
    (extends' : s.Extends u) (closed : u.Closed) :
    {d : ElementDraft} → d.IsFit s s.Holds →
      (∃ (t : AcceptedSchema) (entries : List (Value × Value)),
        (d.place u).2.schemaEntries? (d.place u).1 = some entries ∧
          t.LiesIn (d.place u).2 entries) ∨
        ∀ fields, (d.place u).2.deref? (d.place u).1 ≠ some (.schema fields)
  | .plain v, fit => by
    have same : u.deref? v = s.deref? v := extends'.deref?_eq fit.held
    by_cases schema : ∃ fields, s.deref? v = some (.schema fields)
    · obtain ⟨fields, cell⟩ := schema
      obtain ⟨t, entries, found, inside⟩ := accepts.schema cell
      exact .inl ⟨t, entries, extends'.schemaEntries?_of_some found, inside.mono before extends'⟩
    · refine .inr fun fields cell => schema ⟨fields, ?_⟩
      rw [← same]
      exact cell
  | .schema fields, fit => by
    obtain ⟨closed', -⟩ := FieldDraft.closed_placeAll extends' closed fit
    obtain ⟨t, inside, -⟩ := FieldDraft.exists_liesIn before accepts extends' closed fit
    have mapped := Store.extends_alloc (FieldDraft.placeAll u fields).2
      (.map (FieldDraft.placeAll u fields).1)
    have filled := mapped.trans (Store.extends_alloc _ (.schema (Store.alloc
      (FieldDraft.placeAll u fields).2 (.map (FieldDraft.placeAll u fields).1)).1))
    exact .inl ⟨t, (FieldDraft.placeAll u fields).1, Store.schemaEntries?_placed _ _,
      inside.mono closed' filled⟩

theorem FieldDraft.exists_lies {s u : Store} (before : s.Closed) (accepts : s.Accepts)
    (extends' : s.Extends u) (closed : u.Closed) :
    {d : FieldDraft} → d.IsFit s s.Holds →
      ∃ f, (d.place u).2.deref? (d.place u).1 = some (.field f) ∧
        (d.place u).2.HoldsElements f.tag ∧
        ∃ (tag : AcceptedTag) (o : Options),
          tag.LiesAt (d.place u).2 f.tag ∧ o.LieIn (d.place u).2 f
  | .stored v, ⟨f, cell⟩ => by
    obtain ⟨tag, o, type, modifiers⟩ := accepts.field cell
    have held := before.holds_attribute cell f.tag (by simp [FieldCell.attributes])
    exact ⟨f, extends'.deref?_of_some cell, (accepts.elements cell).mono held extends', tag, o,
      type.mono before extends' held, modifiers.mono extends'⟩
  | .fresh tag o, fit => by
    obtain ⟨closed', type⟩ := TagDraft.closed_place extends' closed fit.1
    obtain ⟨t, lies⟩ := TagDraft.exists_liesAt before accepts extends' closed fit.1
    obtain ⟨f, cell, same, modifiers, filled⟩ := FieldDraft.exists_placed tag o u
    have elements := (TagDraft.holdsElements_place extends' fit.1).mono type filled
    exact ⟨f, cell, same ▸ elements, t, o, same ▸ lies.mono closed' filled type, modifiers⟩

theorem FieldDraft.exists_liesIn {s u : Store} (before : s.Closed) (accepts : s.Accepts)
    (extends' : s.Extends u) (closed : u.Closed) :
    {ds : List (Text × FieldDraft)} → FieldDraft.AllFit s s.Holds ds →
      ∃ t : AcceptedSchema,
        t.LiesIn (FieldDraft.placeAll u ds).2 (FieldDraft.placeAll u ds).1 ∧
          t.names = ds.map Prod.fst
  | [], _ => ⟨.done, rfl, rfl⟩
  | (name, d) :: rest, ⟨fresh, fits, fit⟩ => by
    have placed := d.extends_place u
    have others := FieldDraft.extends_placeAll rest (d.place u).2
    obtain ⟨closed', -⟩ := FieldDraft.closed_place extends' closed fits
    obtain ⟨f, cell, -, tag, o, type, modifiers⟩ :=
      FieldDraft.exists_lies before accepts extends' closed fits
    obtain ⟨t, inside, names⟩ :=
      FieldDraft.exists_liesIn before accepts (extends'.trans placed) closed' fit
    have held := closed'.holds_attribute cell f.tag (by simp [FieldCell.attributes])
    refine ⟨.field name tag o t, ?_, by rw [AcceptedSchema.names, names, List.map_cons]⟩
    exact ⟨(d.place u).1, f, _, rfl, others.deref?_of_some cell,
      AcceptedTag.LiesAt.mono closed' others held type, modifiers.mono others, names ▸ fresh,
      inside⟩

end

/-- A schema is accepted where it is placed. -/
theorem SchemaDraft.exists_liesAt {s u : Store} (before : s.Closed) (accepts : s.Accepts)
    (extends' : s.Extends u) (closed : u.Closed) {d : SchemaDraft}
    (fit : FieldDraft.AllFit s s.Holds d) :
    ∃ t : AcceptedSchema, t.LiesAt (SchemaDraft.place u d).2 (SchemaDraft.place u d).1 := by
  have fits : (ElementDraft.schema d).IsFit s s.Holds := fit
  rcases ElementDraft.isSchema_or_not before accepts extends' closed fits with lies | other
  · obtain ⟨t, entries, found, inside⟩ := lies
    exact ⟨t, entries, found, inside⟩
  · exact absurd (Store.deref?_alloc _ _) (other _)

/-! ## The store still accepts everything -/

/-- What is not new lies where it lay. -/
theorem Store.deref?_alloc_cases {s : Store} {c found : Cell} {v : Value}
    (cell : (s.alloc c).2.deref? v = some found) :
    s.deref? v = some found ∨ v = (s.alloc c).1 ∧ found = c := by
  cases v with
  | scalar x => cases cell
  | ref p =>
    by_cases filled : p < s.size
    · left
      rw [← cell]
      exact (cell?_alloc_of_lt filled).symm
    · right
      have bound : p < (s.alloc c).2.size := lt_size_of_cell? cell
      rw [size_alloc] at bound
      have last : p = s.size := Nat.le_antisymm (Nat.le_of_lt_succ bound) (Nat.le_of_not_lt filled)
      subst last
      exact ⟨rfl, Option.some.inj (cell.symm.trans (s.deref?_alloc c))⟩

/-- Filling a place keeps everything accepted if a declaration or a schema that is filled in is. -/
theorem Store.Accepts.alloc {s : Store} (accepts : s.Accepts) (closed : s.Closed) {c : Cell}
    (field : ∀ f, c = .field f →
      ∃ (tag : AcceptedTag) (o : Options), tag.LiesAt (s.alloc c).2 f.tag ∧ o.LieIn (s.alloc c).2 f)
    (elements : ∀ f, c = .field f → (s.alloc c).2.HoldsElements f.tag)
    (schema : ∀ fields, c = .schema fields →
      ∃ t : AcceptedSchema, t.LiesAt (s.alloc c).2 (s.alloc c).1) :
    (s.alloc c).2.Accepts where
  field {v f} cell := by
    have filled := s.extends_alloc c
    rcases Store.deref?_alloc_cases cell with old | ⟨-, new⟩
    · obtain ⟨tag, o, type, modifiers⟩ := accepts.field old
      have held := closed.holds_attribute old f.tag (by simp [FieldCell.attributes])
      exact ⟨tag, o, type.mono closed filled held, modifiers.mono filled⟩
    · exact field f new.symm
  elements {v f} cell := by
    rcases Store.deref?_alloc_cases cell with old | ⟨-, new⟩
    · have held := closed.holds_attribute old f.tag (by simp [FieldCell.attributes])
      exact (accepts.elements old).mono held (s.extends_alloc c)
    · exact elements f new.symm
  schema {v fields} cell := by
    rcases Store.deref?_alloc_cases cell with old | ⟨rfl, new⟩
    · obtain ⟨t, lies⟩ := accepts.schema old
      exact ⟨t, lies.mono closed (s.extends_alloc c)⟩
    · exact schema fields new.symm

theorem Store.Accepts.alloc_data {s : Store} (accepts : s.Accepts) (closed : s.Closed) {c : Cell}
    (data : c.attributes? = none) : (s.alloc c).2.Accepts := by
  refine accepts.alloc closed ?_ ?_ ?_
  · rintro f rfl
    cases data
  · rintro f rfl
    cases data
  · rintro fields rfl
    cases data

mutual

theorem TagDraft.accepts_place {s u : Store} (before : s.Closed) (accepts : s.Accepts)
    (extends' : s.Extends u) (closed : u.Closed) (still : u.Accepts) :
    {d : TagDraft} → d.IsFit s s.Holds → (d.place u).2.Accepts
  | .plain _, _ => still
  | .list _, fit => by
    obtain ⟨closed', -⟩ := ElementDraft.closed_placeAll extends' closed fit
    have inside := ElementDraft.accepts_placeAll before accepts extends' closed still fit
    exact inside.alloc_data closed' rfl

theorem ElementDraft.accepts_place {s u : Store} (before : s.Closed) (accepts : s.Accepts)
    (extends' : s.Extends u) (closed : u.Closed) (still : u.Accepts) :
    {d : ElementDraft} → d.IsFit s s.Holds → (d.place u).2.Accepts
  | .plain _, _ => still
  | .schema fields, fit => by
    obtain ⟨closed', inside⟩ := FieldDraft.closed_placeAll extends' closed fit
    have declared := FieldDraft.accepts_placeAll before accepts extends' closed still fit
    have mapped := declared.alloc_data (c := .map (FieldDraft.placeAll u fields).1) closed' rfl
    refine mapped.alloc (closed'.alloc (Cell.forall_mem_parts_map inside)) ?_ ?_ ?_
    · intro f same
      cases same
    · intro f same
      cases same
    · intro _ _
      exact SchemaDraft.exists_liesAt before accepts extends' closed fit

theorem ElementDraft.accepts_placeAll {s u : Store} (before : s.Closed) (accepts : s.Accepts)
    (extends' : s.Extends u) (closed : u.Closed) (still : u.Accepts) :
    {ds : List ElementDraft} → ElementDraft.AllFit s s.Holds ds →
      (ElementDraft.placeAll u ds).2.Accepts
  | [], _ => still
  | d :: _, fit => by
    obtain ⟨closed', -⟩ := ElementDraft.closed_place extends' closed fit.1
    exact ElementDraft.accepts_placeAll before accepts (extends'.trans (d.extends_place u)) closed'
      (ElementDraft.accepts_place before accepts extends' closed still fit.1) fit.2

theorem FieldDraft.accepts_place {s u : Store} (before : s.Closed) (accepts : s.Accepts)
    (extends' : s.Extends u) (closed : u.Closed) (still : u.Accepts) :
    {d : FieldDraft} → d.IsFit s s.Holds → (d.place u).2.Accepts
  | .stored _, _ => still
  | .fresh tag o, fit => by
    obtain ⟨f, cell, elements, tag', o', type, modifiers⟩ :=
      FieldDraft.exists_lies before accepts extends' closed fit
    obtain ⟨closed', -⟩ := TagDraft.closed_place extends' closed fit.1
    have typed := TagDraft.accepts_place before accepts extends' closed still fit.1
    have listed := typed.alloc_data (c := .list (o.choices.map .ofText)) closed' rfl
    have same (f' : FieldCell) (placed : Cell.field _ = .field f') : f' = f :=
      Cell.field.inj (placed.symm.trans
        (Option.some.inj ((Store.deref?_alloc _ _).symm.trans cell)))
    refine listed.alloc (closed'.alloc (holds_texts _ _)) ?_ ?_ ?_
    · intro f' placed
      obtain rfl := same f' placed
      exact ⟨tag', o', type, modifiers⟩
    · intro f' placed
      obtain rfl := same f' placed
      exact elements
    · intro fields other
      cases other

theorem FieldDraft.accepts_placeAll {s u : Store} (before : s.Closed) (accepts : s.Accepts)
    (extends' : s.Extends u) (closed : u.Closed) (still : u.Accepts) :
    {ds : List (Text × FieldDraft)} → FieldDraft.AllFit s s.Holds ds →
      (FieldDraft.placeAll u ds).2.Accepts
  | [], _ => still
  | (_, d) :: _, fit => by
    obtain ⟨closed', -⟩ := FieldDraft.closed_place extends' closed fit.2.1
    exact FieldDraft.accepts_placeAll before accepts (extends'.trans (d.extends_place u)) closed'
      (FieldDraft.accepts_place before accepts extends' closed still fit.2.1) fit.2.2

end

theorem SchemaDraft.accepts_place {s : Store} (closed : s.Closed) (accepts : s.Accepts)
    {d : SchemaDraft} (fit : FieldDraft.AllFit s s.Holds d) : (SchemaDraft.place s d).2.Accepts := by
  have fits : (ElementDraft.schema d).IsFit s s.Holds := fit
  exact ElementDraft.accepts_place closed accepts (.refl s) closed accepts fits

/-- A schema that validation accepts is accepted where it is placed, and so is everything else. -/
theorem SchemaDraft.accepted_of_check {s : Store} (closed : s.Closed) (accepts : s.Accepts)
    {entries : List (Value × Value)} {d : SchemaDraft} (done : SchemaDraft.check s entries = .ok d) :
    (∃ t : AcceptedSchema, t.LiesAt (SchemaDraft.place s d).2 (SchemaDraft.place s d).1) ∧
      (SchemaDraft.place s d).2.Accepts := by
  have fit := SchemaDraft.allFit_of_check closed done
  exact ⟨SchemaDraft.exists_liesAt closed accepts (.refl s) closed fit,
    SchemaDraft.accepts_place closed accepts fit⟩

end SwaggerDoc
