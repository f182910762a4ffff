import SwaggerDoc.Proofs.Definition.Collected
import SwaggerDoc.Proofs.Schema.Validation
import SwaggerDoc.Schema.Outline

/-!
The values that come into outlines.

However a closed store was altered, an outline that is read from it holds nothing but scalars and
what the store holds. The induction is on the bound of the nesting: reading a field is given a
reader of the schemas inside its type.
-/

namespace SwaggerDoc

variable {s : Store}

/-- Nothing comes in but what the store holds. -/
abbrev Outline.IsHeld (s : Store) (o : Outline) : Prop := o.Uses s.Holds s.Holds

/-- Nothing comes in but what the store holds. -/
abbrev Entry.IsHeld (s : Store) (e : Entry) : Prop := e.Uses s.Holds s.Holds

/-- Nothing comes in but what the store holds. -/
abbrev Tag.IsHeld (s : Store) (t : Tag) : Prop := t.Uses s.Holds s.Holds

/-! ## Modifiers -/

theorem Store.Closed.holds_of_shownAttributes? (closed : s.Closed) {p : Place}
    {attributes : List (Text × Value)} (shown : s.shownAttributes? p = some attributes) :
    ∀ e ∈ attributes, s.Holds e.2 := by
  intro e member
  obtain ⟨all, found, rfl⟩ := Option.map_eq_some_iff.mp shown
  obtain ⟨c, cell, -, own | given⟩ :=
    Store.mem_of_attributes? found (List.mem_filter.mp member).1
  · exact closed.holds_part cell e.2 own
  · exact (closed.holds_given _ (Store.mem_givenTo.mp given)).2

theorem Store.Closed.holds_of_choices (closed : s.Closed) {v : Value} {choices : List Choice}
    (chosen : s.choices v = .ok choices) : ∀ c ∈ choices, s.Holds c.inner := by
  intro c member
  unfold Store.choices at chosen
  split at chosen
  · obtain rfl := Except.ok.inj chosen
    obtain ⟨n, -, rfl⟩ := List.mem_map.mp member
    exact s.holds_scalar _
  · split at chosen
    · obtain rfl := Except.ok.inj chosen
      obtain ⟨n, -, rfl⟩ := List.mem_map.mp member
      exact s.holds_scalar _
    · cases chosen
  · next p =>
    have holds_items {items : List Value} {cell : Cell} (found : s.cell? p = some cell)
        (parts : cell.parts = items) (listed : c ∈ items.map Choice.value) : s.Holds c.inner := by
      obtain ⟨w, part, rfl⟩ := List.mem_map.mp listed
      exact closed.holds_part found w (parts ▸ part)
    split at chosen
    · next items cell =>
      obtain rfl := Except.ok.inj chosen
      exact holds_items cell rfl member
    · next items cell =>
      obtain rfl := Except.ok.inj chosen
      exact holds_items cell rfl member
    · next items cell =>
      obtain rfl := Except.ok.inj chosen
      exact holds_items cell rfl member
    · next entries cell =>
      obtain rfl := Except.ok.inj chosen
      obtain ⟨e, listed, rfl⟩ := List.mem_map.mp member
      exact closed.holds_part cell e.1 (List.mem_flatMap.mpr ⟨e, listed, by simp⟩)
    · split at chosen
      · next attributes shown =>
        obtain rfl := Except.ok.inj chosen
        obtain ⟨e, listed, rfl⟩ := List.mem_map.mp member
        exact closed.holds_of_shownAttributes? shown e listed
      · cases chosen

theorem Store.Closed.uses_modifiers (closed : s.Closed) {v : Value} {f : FieldCell}
    (cell : s.deref? v = some (.field f)) : (s.modifiers f).Uses s.Holds s.Holds := by
  have held := closed.holds_parts_of_deref? cell
  simp only [Cell.parts, FieldCell.attributes, List.mem_cons, List.not_mem_nil, or_false,
    forall_eq_or_imp, forall_eq] at held
  obtain ⟨-, -, description, sample, -, least, greatest, -, -⟩ := held
  refine ⟨description, sample, fun choices chosen => ?_, least, greatest⟩
  simp only [Store.modifiers] at chosen
  split at chosen
  · exact closed.holds_of_choices chosen
  · obtain rfl := Except.ok.inj chosen
    exact List.forall_mem_nil _

theorem Options.uses_modifiers {o : Options} (held : s.Holds o.sample) :
    o.modifiers.Uses s.Holds s.Holds where
  description := by
    cases described : o.description <;>
      simp [Options.modifiers, Attribute.ofText?, described]
  sample := held
  choices choices chosen c listed := by
    obtain rfl := Except.ok.inj chosen
    obtain ⟨t, -, rfl⟩ := List.mem_map.mp listed
    exact s.holds_scalar _
  least := by
    cases bounded : o.least with
    | none => simp [Options.modifiers, bounded]
    | some b => cases b <;> simp [Options.modifiers, bounded, Check.Bound.value]
  greatest := by
    cases bounded : o.greatest with
    | none => simp [Options.modifiers, bounded]
    | some b => cases b <;> simp [Options.modifiers, bounded, Check.Bound.value]

/-! ## Whatever declares a field -/

/-- The draft of whatever declares a field: a declaration, a mapping with a type, or a bare type. -/
def FieldDraft.ofOptions (s : Store) (v : Value) : Except Fault FieldDraft :=
  match s.deref? v with
  | some (.field _) => .ok (.stored v)
  | some (.map entries) =>
    if (lookupText? entries (text "type")).isSome then FieldDraft.check s entries
    else FieldDraft.ofTag s v
  | _ => FieldDraft.ofTag s v

/-- A field is read from the draft of whatever declares it. -/
theorem Entry.ofOptions_eq (nested : Value → Outline) (v : Value) :
    Entry.ofOptions s nested v =
      match FieldDraft.ofOptions s v with
      | .ok draft => draft.outline s nested
      | .error fault => .broken fault :=
  rfl

theorem FieldDraft.isFit_ofOptions (closed : s.Closed) {v : Value} (held : s.Holds v)
    {d : FieldDraft} (done : FieldDraft.ofOptions s v = .ok d) : d.IsFit s s.Holds := by
  have bare (done : FieldDraft.ofTag s v = .ok d) : d.IsFit s s.Holds := by
    refine Draft.comesToFit_ofMapping closed.gives _ _ d ?_ (Checked.of_result done)
    intro e member
    rw [List.mem_singleton.mp member]
    exact held
  unfold FieldDraft.ofOptions at done
  split at done
  · next f cell =>
    obtain rfl := Except.ok.inj done
    exact ⟨f, cell⟩
  · next entries cell =>
    split at done
    · obtain ⟨found, named, checked⟩ := Except.exists_ok_of_bind done
      obtain rfl := Check.eq_of_attributes named
      exact Draft.comesToFit_ofMapping closed.gives _ _ d (Draft.allHeld_of_deref? closed cell)
        (Checked.of_result checked)
    · exact bare done
  · exact bare done

/-! ## Reading -/

section Nested

variable {nested : Value → Outline}

theorem Tag.isHeld_ofFirst (inner : ∀ v, (nested v).IsHeld s) (first : Value) :
    (Tag.ofFirst s nested first).IsHeld s := by
  unfold Tag.ofFirst
  split
  · exact inner first
  · trivial

theorem Tag.isHeld_read (inner : ∀ v, (nested v).IsHeld s) (v : Value) :
    (Tag.read s nested v).IsHeld s := by
  unfold Tag.read
  split
  · exact Tag.isHeld_ofFirst inner _
  · trivial
  · trivial

theorem Entry.isHeld_stored (inner : ∀ v, (nested v).IsHeld s) (closed : s.Closed) (v : Value) :
    (Entry.stored s nested v).IsHeld s := by
  unfold Entry.stored
  split
  · next f cell => exact ⟨Tag.isHeld_read inner f.tag, closed.uses_modifiers cell⟩
  · trivial

mutual

theorem TagDraft.isHeld_outline (inner : ∀ v, (nested v).IsHeld s) (closed : s.Closed) :
    {d : TagDraft} → d.IsFit s s.Holds → (d.outline s nested).IsHeld s
  | .plain _, _ => trivial
  | .list [], _ => trivial
  | .list (_ :: _), fit => ElementDraft.isHeld_outline inner closed fit.1

theorem ElementDraft.isHeld_outline (inner : ∀ v, (nested v).IsHeld s) (closed : s.Closed) :
    {d : ElementDraft} → d.IsFit s s.Holds → (d.outline s nested).IsHeld s
  | .plain v, _ => Tag.isHeld_ofFirst inner v
  | .schema _, fit => FieldDraft.isHeld_outlineAll inner closed fit

theorem FieldDraft.isHeld_outline (inner : ∀ v, (nested v).IsHeld s) (closed : s.Closed) :
    {d : FieldDraft} → d.IsFit s s.Holds → (d.outline s nested).IsHeld s
  | .stored v, _ => Entry.isHeld_stored inner closed v
  | .fresh _ _, fit => ⟨TagDraft.isHeld_outline inner closed fit.1, Options.uses_modifiers fit.2⟩

theorem FieldDraft.isHeld_outlineAll (inner : ∀ v, (nested v).IsHeld s) (closed : s.Closed) :
    {ds : List (Text × FieldDraft)} → FieldDraft.AllFit s s.Holds ds →
      (FieldDraft.outlineAll s nested ds).IsHeld s
  | [], _ => trivial
  | (name, d) :: rest, ⟨_, fits, fit⟩ => by
    rw [FieldDraft.outlineAll]
    split
    · exact FieldDraft.isHeld_outlineAll inner closed fit
    · exact ⟨s.holds_scalar _, FieldDraft.isHeld_outline inner closed fits,
        FieldDraft.isHeld_outlineAll inner closed fit⟩

end

theorem Entry.isHeld_ofOptions (inner : ∀ v, (nested v).IsHeld s) (closed : s.Closed) {v : Value}
    (held : s.Holds v) : (Entry.ofOptions s nested v).IsHeld s := by
  rw [Entry.ofOptions_eq]
  split
  · next d draft =>
    exact FieldDraft.isHeld_outline inner closed (FieldDraft.isFit_ofOptions closed held draft)
  · trivial

theorem Entry.isHeld_read (inner : ∀ v, (nested v).IsHeld s) (closed : s.Closed) {v : Value}
    (held : s.Holds v) : (Entry.read s nested v).IsHeld s := by
  unfold Entry.read
  split
  · exact Entry.isHeld_stored inner closed v
  · have options := Entry.isHeld_ofOptions inner closed held
    split
    · next tag m same =>
      rw [same] at options
      exact options.1
    · exact options

end Nested

theorem Outline.isHeld_ofEntries {entry : Value → Entry} :
    {entries : List (Value × Value)} → (∀ e ∈ entries, (entry e.2).IsHeld s) →
      (Outline.ofEntries entry entries).IsHeld s
  | [], _ => trivial
  | (key, value) :: rest, inner => by
    have later : (Outline.ofEntries entry rest).IsHeld s :=
      Outline.isHeld_ofEntries fun e member => inner e (List.mem_cons_of_mem _ member)
    unfold Outline.ofEntries
    split
    · trivial
    · split
      · trivial
      · split
        · exact later
        · refine ⟨s.holds_scalar _, inner _ List.mem_cons_self, ?_⟩
          split
          · trivial
          · exact later
    · trivial

theorem Outline.isHeld_readWithin (closed : s.Closed) (depth : Nat) (v : Value) :
    (Outline.readWithin s depth v).IsHeld s := by
  induction depth generalizing v with
  | zero => trivial
  | succ depth ih =>
    rw [Outline.readWithin]
    split
    · split
      · next entries cell =>
        refine Outline.isHeld_ofEntries fun e member => ?_
        exact Entry.isHeld_read ih closed (Draft.allHeld_of_deref? closed cell e member)
      · trivial
    · trivial

/-- The outline of whatever is in a closed store is held. -/
theorem Outline.isHeld_read (closed : s.Closed) (v : Value) : (Outline.read s v).IsHeld s :=
  Outline.isHeld_readWithin closed _ v

end SwaggerDoc
