import SwaggerDoc.Proofs.Definition.Grammar
import SwaggerDoc.Proofs.Document.Alike

/-!
References in definitions.

The descriptors of a definition are under its properties, and those of a definition nested in it are
under the properties of the items of an array. A descriptor that holds a reference to another
definition stands for a field of which a fallback was reported: there are as many of the one as of
the other (`AcceptedSchema.references_definition`).
-/

namespace SwaggerDoc

namespace Tree

/-- Whether a key is the given text. -/
def isKey (key : String) : Tree → Bool
  | .scalar (.string t) => t == text key
  | _ => false

mutual

/-- The number of descriptors that hold a reference, in a definition or in a descriptor and all
definitions nested in it. -/
def references : Tree → Nat
  | .map entries =>
    (if entries.any (·.1.isKey "$ref") then 1 else 0) + referencesUnder entries
  | _ => 0

/-- The descriptors with a reference under the keys behind which there are some. -/
def referencesUnder : List (Tree × Tree) → Nat
  | [] => 0
  | (key, part) :: rest =>
    (if key.isKey "properties" then part.referencesAmong
      else if key.isKey "items" then part.references
      else 0)
      + referencesUnder rest

/-- The descriptors with a reference among properties by name. -/
def referencesAmong : Tree → Nat
  | .map entries => referencesOf entries
  | _ => 0

/-- The descriptors with a reference that entries have behind their names. -/
def referencesOf : List (Tree × Tree) → Nat
  | [] => 0
  | (_, descriptor) :: rest => descriptor.references + referencesOf rest

end

theorem referencesUnder_append (a b : List (Tree × Tree)) :
    referencesUnder (a ++ b) = referencesUnder a + referencesUnder b := by
  induction a with
  | nil => simp [referencesUnder]
  | cons e rest ih =>
    obtain ⟨key, part⟩ := e
    rw [List.cons_append, referencesUnder, referencesUnder, ih]
    omega

end Tree

open Shape

mutual

/-- The number of references in a kind, at any depth. -/
def Kind.references : Kind → Nat
  | .reference _ => 1
  | .records item => item.references
  | _ => 0

/-- The number of references in a property, at any depth. -/
def Property.references : Property → Nat
  | .mk kind _ _ _ => kind.references

/-- The number of references in properties, at any depth. -/
def Property.referencesIn : List (Name × Property) → Nat
  | [] => 0
  | (_, property) :: rest => property.references + Property.referencesIn rest

/-- The number of references in a definition, at any depth. -/
def Definition.references : Definition → Nat
  | .mk properties => Property.referencesIn properties

end

/-! ## What definitions show -/

section Shown

variable {s : Store}

/-- The descriptors with a reference that a record shows: itself and those inside. -/
def shownReferences (s : Store) (record : List (String × Shape)) : Nat :=
  (if (shown s record).any (·.1.isKey "$ref") then 1 else 0) + Tree.referencesUnder (shown s record)

theorem references_record (record : List (String × Shape)) :
    ((Shape.record record).tree s).references = shownReferences s record := by
  rw [tree_record, Tree.references, shownReferences]

theorem isKey_unfold (key other : String) :
    (s.unfold (.ofText (text other))).isKey key = (text other == text key) := rfl

/-- The key says nothing about references. -/
structure IsQuiet (key : String) : Prop where
  reference : (text key == text "$ref") = false
  properties : (text key == text "properties") = false
  items : (text key == text "items") = false

theorem quiet_type : IsQuiet "type" := ⟨by decide, by decide, by decide⟩

theorem quiet_description : IsQuiet "description" := ⟨by decide, by decide, by decide⟩

theorem quiet_example : IsQuiet "example" := ⟨by decide, by decide, by decide⟩

theorem quiet_allowableValues : IsQuiet "allowableValues" := ⟨by decide, by decide, by decide⟩

/-- Quiet entries behind others do not count. -/
theorem shownReferences_quiet {front back : List (String × Shape)} (quiet : ∀ e ∈ back, IsQuiet e.1) :
    shownReferences s (front ++ back) = shownReferences s front := by
  have silent : (shown s back).any (·.1.isKey "$ref") = false ∧
      Tree.referencesUnder (shown s back) = 0 := by
    induction back with
    | nil => exact ⟨rfl, rfl⟩
    | cons e back ih =>
      obtain ⟨first, later⟩ := List.forall_mem_cons.mp quiet
      obtain ⟨none, zero⟩ := ih later
      rw [shown, List.map_cons]
      constructor
      · rw [List.any_cons, isKey_unfold, first.reference]
        exact none
      · rw [Tree.referencesUnder, isKey_unfold, isKey_unfold, first.properties, first.items]
        simpa [shown] using zero
  rw [shownReferences, shown_append, List.any_append, silent.1, Tree.referencesUnder_append, silent.2,
    Bool.or_false, Nat.add_zero]
  rfl

theorem quiet_toList {α : Type} {key : String} (quiet : IsQuiet key) (shape : α → Shape)
    (a : Option α) : ∀ e ∈ (a.map fun a => (key, shape a)).toList, IsQuiet e.1 := by
  intro e listed
  obtain ⟨a, -, rfl⟩ := Option.map_eq_some_iff.mp (Option.mem_toList.mp listed)
  exact quiet

theorem Kind.quiet_fallbackType (kind : Kind) : ∀ e ∈ kind.fallbackType, IsQuiet e.1 := by
  cases kind with
  | reference target => exact List.forall_mem_singleton.mpr quiet_type
  | _ => exact List.forall_mem_nil _

mutual

theorem Kind.references_shown : (kind : Kind) → shownReferences s kind.entries = kind.references
  | .string | .date | .integer | .boolean | .texts => rfl
  | .reference target => by
    have reference : (text "$ref" == text "$ref") = true := by decide
    simp only [Kind.entries, shownReferences, shown, List.map_cons, List.map_nil, List.any_cons,
      isKey_unfold, reference, Bool.true_or, if_true]
    rfl
  | .records item => by
    have reference : (text "items" == text "$ref") = false := by decide
    have properties : (text "items" == text "properties") = false := by decide
    have items : (text "items" == text "items") = true := by decide
    simp only [Kind.entries, shownReferences, shown, List.map_cons, List.map_nil, List.any_cons,
      List.any_nil, Tree.referencesUnder, isKey_unfold, quiet_type.reference, quiet_type.properties,
      quiet_type.items, reference, properties, items, Definition.references_tree item,
      Kind.references]
    simp

/-- A descriptor shows as many references as there are in its property. -/
theorem Property.references_tree : (p : Property) → (p.shape.tree s).references = p.references
  | .mk kind description sample allowable => by
    rw [Property.shape, references_record, Property.references,
      shownReferences_quiet kind.quiet_fallbackType,
      shownReferences_quiet (quiet_toList quiet_allowableValues _ _),
      shownReferences_quiet (quiet_toList quiet_example _ _),
      shownReferences_quiet (quiet_toList quiet_description _ _), Kind.references_shown kind]

theorem Property.references_entriesOf : (properties : List (Name × Property)) →
    Tree.referencesOf (treeEntries s (Property.entriesOf properties)) =
      Property.referencesIn properties
  | [] => rfl
  | (name, property) :: rest => by
    rw [Property.entriesOf, treeEntries, Tree.referencesOf, Property.referencesIn,
      Property.references_tree property, Property.references_entriesOf rest]

/-- A definition shows as many references as there are in it. -/
theorem Definition.references_tree : (d : Definition) → (d.shape.tree s).references = d.references
  | .mk properties => by
    have reference : (text "properties" == text "$ref") = false := by decide
    have same : (text "properties" == text "properties") = true := by decide
    simp only [Definition.shape, references_record, shownReferences, shown, List.map_cons,
      List.map_nil, List.any_cons, List.any_nil, Tree.referencesUnder, isKey_unfold, reference, same,
      tree, Tree.referencesAmong, Property.references_entriesOf properties, Definition.references]
    simp

end

end Shown

/-! ## Fallbacks of a schema -/

mutual

/-- What the type of a field maps to has a reference for each fallback, of fields in it and of the
field itself. -/
theorem AcceptedTag.references_kind? (name target : Text) : (t : AcceptedTag) →
    ((t.kind? target).map Kind.references).getD 0 =
      ((t.visits name).filterMap Visit.fallback?).length + t.reference?.toList.length
  | .nested element => AcceptedSchema.references_definition name element
  | .list => rfl
  | .plain (.ref p) => rfl
  | .plain (.scalar x) => by
    cases x with
    | fieldType t => cases t <;> rfl
    | _ => rfl

/-- The definition of a schema has a reference for each fallback. -/
theorem AcceptedSchema.references_definition (name : Text) : (t : AcceptedSchema) →
    t.definition.references = ((t.visits name).filterMap Visit.fallback?).length
  | .done => rfl
  | .field field tag options rest => by
    have later := AcceptedSchema.references_definition name rest
    have type := AcceptedTag.references_kind? (nestedName name field) options.targetText tag
    have own : Visit.fallback? ⟨name, field, tag, options⟩ =
        tag.reference?.map fun t => ⟨name, field, t.name⟩ := rfl
    rw [AcceptedSchema.definition, Collected.definition, Definition.references] at later ⊢
    rw [AcceptedSchema.collected, AcceptedSchema.visits]
    split
    · exact later
    · rw [List.filterMap_append, List.length_append, List.filterMap_cons, own]
      cases maps : tag.kind? options.targetText with
      | none =>
        rw [maps, AcceptedTag.reference?_of_kind? maps] at type
        rw [AcceptedTag.reference?_of_kind? maps]
        simp only [Option.map_none, Option.getD_none, Option.toList_none, List.length_nil] at type ⊢
        rw [later]
        omega
      | some kind =>
        rw [maps] at type
        simp only [Option.map_some, Option.getD_some] at type
        simp only [Collected.cons, Property.referencesIn, Options.property, Property.references, type,
          later]
        rcases tag.reference? with _ | t
        · rfl
        · simp only [Option.toList_some, Option.map_some, List.length_cons, List.length_nil]
          omega

end

end SwaggerDoc
