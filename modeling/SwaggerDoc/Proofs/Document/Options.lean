import SwaggerDoc.Proofs.Definition.Redeclared
import SwaggerDoc.Proofs.Schema.Failing

/-!
Options that are mapped as they are given, and options that are declared first.

A value can be mapped without a schema around it, or a schema with one field can be made from it and
the declaration of that field be mapped. Both take the same values for a mapping of options and the
same for a bare type, so they accept the same drafts; and a draft is read as it is mapped
(`declared_options_map_alike`).
-/

namespace SwaggerDoc

/-! ## What is mapped -/

/-- The reports come to the same and note the same, or both are too deep. -/
def Report.SameOutcome {α : Type} (r r' : Report α) : Prop :=
  ∀ j, r j = r' j ∨ (r j).1 = .error .tooDeep ∧ (r' j).1 = .error .tooDeep

theorem Report.LeadsTo.sameOutcome {α : Type} {r r' : Report α} (left : r.LeadsTo r')
    (right : r'.LeadsTo r) : r.SameOutcome r' := by
  intro j
  rcases left j with deep | same
  · rcases right j with deep' | same
    · exact .inr ⟨deep, deep'⟩
    · exact .inl same.symm
  · exact .inl same

section Mapping

variable {s u : Store} {v w : Value}

theorem Store.leadsTo_propertyOf
    (leads : (Entry.ofOptions s s.outlineOf v).LeadsTo (Entry.ofOptions u u.outlineOf w))
    (name : Text) : (s.propertyOf v name).LeadsTo (u.propertyOf w name) := by
  unfold Store.propertyOf
  generalize Entry.ofOptions s s.outlineOf v = e at leads
  generalize Entry.ofOptions u u.outlineOf w = e' at leads
  cases leads with
  | broken fault => exact .refl _
  | declared type => exact (type.kind (DefinitionName.isGiven_ofText name) _).bind_left _
  | bare type => exact (type.kind (DefinitionName.isGiven_ofText name) _).bind_left _

theorem Entry.Matches.sameOutcome
    (alike : (Entry.ofOptions s s.outlineOf v).Matches (Entry.ofOptions u u.outlineOf w))
    (name : Text) : (s.propertyOf v name).SameOutcome (u.propertyOf w name) :=
  (Store.leadsTo_propertyOf alike.1 name).sameOutcome (Store.leadsTo_propertyOf alike.2 name)

theorem Store.propertyOf_of_error {fault : Fault} (failed : FieldDraft.ofOptions s v = .error fault)
    (name : Text) : s.propertyOf v name = .fault fault := by
  rw [propertyOf, Entry.ofOptions_eq, failed]

end Mapping

/-! ## What is accepted -/

/-- The names of the options are texts, if the value is a mapping of options. -/
def Store.NamesOptions (s : Store) (v : Value) : Prop :=
  ∀ entries, s.deref? v = some (.map entries) → (lookupText? entries (text "type")).isSome →
    ∀ e ∈ entries, e.1.asText?.isSome

section Acceptance

variable {s : Store} {v : Value}

/-- A value that is mapped is taken for the same field as one that is declared in a schema. -/
theorem FieldDraft.ofOptions_eq_result (named : s.NamesOptions v) :
    FieldDraft.ofOptions s v = (Draft.ofEntry s (Draft.field s) v).result (text "FieldSpec") := by
  unfold FieldDraft.ofOptions Draft.ofEntry
  cases cell : s.deref? v with
  | none => rfl
  | some c =>
    cases c with
    | map entries =>
      dsimp only
      split
      · next given =>
        have attributes : Check.attributes entries = .ok entries :=
          if_pos (List.all_eq_true.mpr (named entries cell given))
        rw [FieldDraft.check, attributes]
        rfl
      · rfl
    | _ => rfl

/-- A schema with one field is accepted like the field. -/
theorem Draft.ofSchema_field {fields : Value} {name : Text}
    (given : s.deref? fields = some (.map [(.ofText name, v)])) :
    ofSchema s (field s) [(.ofText (text "fields"), fields)] =
      (((ofEntry s (field s) v).within (Check.step s (.ofText name))).map
        fun d => [(name, d)]).within (.name (text "fields")) := by
  have found : lookupText? [(Value.ofText (text "fields"), fields)] (text "fields") = some fields :=
    rfl
  have key : Check.key s (.ofText name) = .accepted name := rfl
  rw [ofSchema, Check.optional, found]
  simp only [ofFields, given, Checked.all, key]
  cases (ofEntry s (field s) v).within (Check.step s (.ofText name)) <;> rfl

end Acceptance

/-! ## What is placed -/

section Placement

variable {s : Store}

theorem FieldDraft.exists_cell {d : FieldDraft} (fit : d.IsFit s s.Holds) :
    ∃ f, (d.place s).2.deref? (d.place s).1 = some (.field f) := by
  cases d with
  | stored v => exact fit
  | fresh tag o =>
    obtain ⟨f, cell, -⟩ := FieldDraft.exists_placed tag o s
    exact ⟨f, cell⟩

/-- A draft that is declared is mapped as it would be without. -/
theorem FieldDraft.matches_declared (closed : s.Closed) {name : Text} {d : FieldDraft}
    (fit : d.IsFit s s.Holds) :
    (d.outline s s.outlineOf).Matches
      (Entry.ofOptions (SchemaDraft.place s [(name, d)]).2
        (SchemaDraft.place s [(name, d)]).2.outlineOf (d.place s).1) := by
  have filled : (d.place s).2.Extends (SchemaDraft.place s [(name, d)]).2 :=
    (Store.extends_alloc _ _).trans (Store.extends_alloc _ _)
  have all : FieldDraft.AllFit s s.Holds [(name, d)] := ⟨List.not_mem_nil, fit, trivial⟩
  obtain ⟨closed', -⟩ := SchemaDraft.closed_place closed all
  obtain ⟨f, cell⟩ := FieldDraft.exists_cell fit
  obtain ⟨read, mapped⟩ := FieldDraft.matches_outline closed (.refl s) closed' fit filled
  rw [Entry.read, filled.deref?_of_some cell] at read mapped
  rw [Entry.ofOptions, filled.deref?_of_some cell]
  exact ⟨mapped, read⟩

end Placement

/-! ## Both ways -/

/-- Mapping the value and declaring it first, as the only field of a schema that is given the
mapping `fields`, come to the same. -/
inductive Store.MapsAlike (s : Store) (fields : Value) (field : Text) (v : Value) (name : Text) : Prop
  /-- The schema is made, and the declaration in it is mapped like the value: to the same, with the
  same notes. -/
  | mapped (d : SchemaDraft) (w : Value)
    (made : SchemaDraft.check s [(.ofText (text "fields"), fields)] = .ok d)
    (declared : (SchemaDraft.place s d).2.schemaEntries? (SchemaDraft.place s d).1 =
      some [(.ofText field, w)])
    (same : (s.propertyOf v name).SameOutcome ((SchemaDraft.place s d).2.propertyOf w name))
  /-- Both are refused with the same issues, found inside the field of the schema. -/
  | refused (issues : List Issue)
    (direct : s.propertyOf v name = .fault (.invalid (text "FieldSpec") issues))
    (made : SchemaDraft.check s [(.ofText (text "fields"), fields)] =
      .error (.invalid (text "Schema") (issues.map fun issue =>
        (issue.within (Check.step s (.ofText field))).within (.name (text "fields")))))
  /-- Both break off, for a cause that lies in the value. -/
  | failed (fault : Fault) (cause : s.BreaksOff v fault)
    (direct : s.propertyOf v name = .fault fault)
    (made : SchemaDraft.check s [(.ofText (text "fields"), fields)] = .error fault)

/-- Whatever the value is, mapping it comes to the same as declaring it in a schema and mapping the
declaration: to the same property with the same notes, to the same fault, or to the same issues. -/
theorem declared_options_map_alike {s : Store} (closed : s.Closed) {fields v : Value} {field : Text}
    (given : s.deref? fields = some (.map [(.ofText field, v)])) (named : s.NamesOptions v)
    (name : Text) : s.MapsAlike fields field v name := by
  have direct := FieldDraft.ofOptions_eq_result named
  have made : SchemaDraft.check s [(.ofText (text "fields"), fields)] =
      (Draft.ofSchema s (Draft.field s) [(.ofText (text "fields"), fields)]).result
        (text "Schema") := rfl
  rw [Draft.ofSchema_field given] at made
  cases checked : Draft.ofEntry s (Draft.field s) v with
  | accepted d =>
    rw [checked] at direct made
    have held := Draft.allHeld_of_deref? closed given (.ofText field, v) List.mem_cons_self
    have fit := FieldDraft.isFit_ofOptions closed held direct
    have mapped : Entry.ofOptions s s.outlineOf v = d.outline s s.outlineOf := by
      rw [Entry.ofOptions_eq, direct]
      rfl
    refine .mapped _ (d.place s).1 made (Store.schemaEntries?_placed _ _) ?_
    apply Entry.Matches.sameOutcome
    rw [mapped]
    exact FieldDraft.matches_declared closed fit
  | refused issues =>
    rw [checked] at direct made
    refine .refused issues (Store.propertyOf_of_error direct name) ?_
    rw [made, Checked.within, Checked.map, Checked.within, Checked.result, List.map_map]
    rfl
  | failed fault =>
    rw [checked] at direct made
    have cause := Draft.cause_of_failed (n := s.size + 2) (by omega) checked
    exact .failed fault cause (Store.propertyOf_of_error direct name) made

/-! ## A schema in a list, in options with a type -/

namespace OptionsSample

/-- A field of records whose declaration is a mapping of options, and the mapping of such a field. -/
def store : Store where
  cells := #[
    .map [(.ofText (text "count"), .ofText (text "Number"))],
    .map [(.ofText (text "fields"), .ref 0)],
    .list [.ref 1],
    .map [(.ofText (text "type"), .ref 2), (.ofText (text "required"), .scalar (.bool true))],
    .map [(.ofText (text "items"), .ref 3)]]
  labels := 1
  given := []

theorem closed : store.Closed := Store.closed_of_cells rfl (by decide)

theorem namesOptions : store.NamesOptions (.ref 3) := by
  intro entries cell _
  obtain rfl := Cell.map.inj (Option.some.inj cell)
  decide

end OptionsSample

open OptionsSample in
theorem declared_options_map_alike_in_sample :
    store.Closed ∧ store.NamesOptions (.ref 3) ∧
      store.MapsAlike (.ref 4) (text "items") (.ref 3) (text "Order") ∧
      (store.propertyOf (.ref 3) (text "Order") ⟨none, []⟩).1 =
        .ok (some (.record (Kind.records (.mk [(.text (text "count"),
          .mk .integer none none none)])).entries)) := by
  have given : store.deref? (.ref 4) = some (.map [(.ofText (text "items"), .ref 3)]) := rfl
  have alike := declared_options_map_alike closed given namesOptions (text "Order")
  exact ⟨closed, namesOptions, alike, by rfl⟩

end SwaggerDoc
