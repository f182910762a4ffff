import SwaggerDoc.Proofs.Schema.Accepted
import SwaggerDoc.Proofs.Store.Closed

/-!
What validation accepts.

A draft that comes out of a check is fit for the store that the values came from: what it takes over
from there is held or declares a field, no type in it is still a plain type name or a list, and the
fields of a schema have different names. The induction is on the bound of the nesting, so a check of
mappings inside a list tag is taken to be right when the check around it is looked at.
-/

namespace SwaggerDoc

namespace Checked

variable {α β : Type}

theorem exists_of_map {x : Checked α} {f : α → β} {b : β} (done : x.map f = .accepted b) :
    ∃ a, x = .accepted a ∧ f a = b := by
  cases x with
  | accepted a => exact ⟨a, rfl, Checked.accepted.inj done⟩
  | refused issues => cases done
  | failed fault => cases done

theorem of_both {x : Checked α} {y : Unit → Checked β} {a : α} {b : β}
    (done : x.both y = .accepted (a, b)) : x = .accepted a ∧ y () = .accepted b := by
  cases x with
  | accepted a' =>
    obtain ⟨b', accepts, same⟩ := exists_of_map done
    obtain ⟨rfl, rfl⟩ := Prod.mk.inj same
    exact ⟨rfl, accepts⟩
  | refused issues =>
    simp only [both] at done
    split at done <;> cases done
  | failed fault => cases done

theorem exists_of_seq {f : Checked (α → β)} {x : Checked α} {b : β}
    (done : f <*> x = .accepted b) : ∃ g a, f = .accepted g ∧ x = .accepted a ∧ g a = b := by
  obtain ⟨⟨g, a⟩, accepts, same⟩ := exists_of_map done
  obtain ⟨left, right⟩ := of_both accepts
  exact ⟨g, a, left, right, same⟩

theorem of_within {x : Checked α} {step : LocationItem} {a : α}
    (done : x.within step = .accepted a) : x = .accepted a := by
  cases x with
  | refused issues => cases done
  | _ => exact done

theorem exists_of_all {check : α → Checked β} :
    {items : List α} → {found : List β} → all check items = .accepted found →
      ∀ b ∈ found, ∃ a ∈ items, check a = .accepted b
  | [], _, done, b, member => by
    obtain rfl := Checked.accepted.inj done
    cases member
  | a :: rest, _, done, b, member => by
    obtain ⟨⟨first, later⟩, accepts, rfl⟩ := exists_of_map done
    obtain ⟨head, tail⟩ := of_both accepts
    rcases List.mem_cons.mp member with rfl | member
    · exact ⟨a, List.mem_cons_self, head⟩
    · obtain ⟨a', listed, accepted⟩ := exists_of_all tail b member
      exact ⟨a', List.mem_cons_of_mem a listed, accepted⟩

theorem exists_of_andThen {x : Checked α} {f : α → Checked β} {b : β}
    (done : x.andThen f = .accepted b) : ∃ a, x = .accepted a ∧ f a = .accepted b := by
  cases x with
  | accepted a => exact ⟨a, rfl, done⟩
  | refused issues => cases done
  | failed fault => cases done

theorem exists_of_inOrder_cons {check : α → Checked β} {a : α} {rest : List α} {found : List β}
    (done : inOrder check (a :: rest) = .accepted found) :
    ∃ first later, found = first :: later ∧ check a = .accepted first ∧
      inOrder check rest = .accepted later := by
  obtain ⟨first, head, done⟩ := exists_of_andThen done
  obtain ⟨later, tail, same⟩ := exists_of_map done
  exact ⟨first, later, same.symm, head, tail⟩

theorem exists_of_inOrder {check : α → Checked β} :
    {items : List α} → {found : List β} → inOrder check items = .accepted found →
      ∀ b ∈ found, ∃ a ∈ items, check a = .accepted b
  | [], _, done, b, member => by
    obtain rfl := Checked.accepted.inj done
    cases member
  | a :: rest, _, done, b, member => by
    obtain ⟨first, later, rfl, head, tail⟩ := exists_of_inOrder_cons done
    rcases List.mem_cons.mp member with rfl | member
    · exact ⟨a, List.mem_cons_self, head⟩
    · obtain ⟨a', listed, accepted⟩ := exists_of_inOrder tail b member
      exact ⟨a', List.mem_cons_of_mem a listed, accepted⟩

theorem of_result {x : Checked α} {model : Text} {a : α} (done : x.result model = .ok a) :
    x = .accepted a := by
  cases x with
  | accepted a' => exact congrArg _ (Except.ok.inj done)
  | refused issues => cases done
  | failed fault => cases done

end Checked

/-! ## Fit drafts -/

/-- The value stands in a list tag as validation leaves it: it is no type name, and no mapping that
holds fields. -/
structure Store.IsElement (s : Store) (v : Value) : Prop where
  held : s.Holds v
  named : Draft.namedTag v = v
  noFields : ∀ entries, s.deref? v = some (.map entries) →
    lookupText? entries (text "fields") = none

mutual

/-- A type that is taken over is held, and is no type name and no list. -/
def TagDraft.IsFit (s : Store) (given : Value → Prop) : TagDraft → Prop
  | .plain v =>
    s.Holds v ∧ Draft.namedTag v = v ∧ ∀ items, s.deref? v ≠ some (.list items)
  | .list elements => ElementDraft.AllFit s given elements

/-- An element that is taken over is held, and is neither a type name nor a mapping with fields. -/
def ElementDraft.IsFit (s : Store) (given : Value → Prop) : ElementDraft → Prop
  | .plain v => s.IsElement v
  | .schema fields => FieldDraft.AllFit s given fields

/-- The elements are fit. -/
def ElementDraft.AllFit (s : Store) (given : Value → Prop) : List ElementDraft → Prop
  | [] => True
  | element :: rest => element.IsFit s given ∧ ElementDraft.AllFit s given rest

/-- A declaration that is taken over lies in the store, the example of any other is given. -/
def FieldDraft.IsFit (s : Store) (given : Value → Prop) : FieldDraft → Prop
  | .stored v => ∃ f, s.deref? v = some (.field f)
  | .fresh tag o => tag.IsFit s given ∧ given o.sample

/-- The fields are fit, each with a name of its own. -/
def FieldDraft.AllFit (s : Store) (given : Value → Prop) : List (Text × FieldDraft) → Prop
  | [] => True
  | (name, field) :: rest =>
    name ∉ rest.map Prod.fst ∧ field.IsFit s given ∧ FieldDraft.AllFit s given rest

end

section Fit

variable {s : Store} {given : Value → Prop}

theorem ElementDraft.allFit_iff {elements : List ElementDraft} :
    ElementDraft.AllFit s given elements ↔ ∀ element ∈ elements, element.IsFit s given := by
  induction elements with
  | nil => simp [ElementDraft.AllFit]
  | cons element rest ih => simp [ElementDraft.AllFit, ih]

theorem FieldDraft.allFit_iff {fields : List (Text × FieldDraft)} :
    FieldDraft.AllFit s given fields ↔
      (fields.map Prod.fst).Nodup ∧ ∀ e ∈ fields, e.2.IsFit s given := by
  induction fields with
  | nil => simp [FieldDraft.AllFit]
  | cons entry rest ih =>
    obtain ⟨name, field⟩ := entry
    simp only [FieldDraft.AllFit, ih, List.map_cons, List.nodup_cons, List.forall_mem_cons]
    constructor
    · rintro ⟨fresh, fits, nodup, each⟩
      exact ⟨⟨fresh, nodup⟩, fits, each⟩
    · rintro ⟨⟨fresh, nodup⟩, fits, each⟩
      exact ⟨fresh, fits, nodup, each⟩

mutual

/-- What is fit stays so if more is given. -/
theorem TagDraft.IsFit.imp {more : Value → Prop} (weaker : ∀ v, given v → more v) :
    {d : TagDraft} → d.IsFit s given → d.IsFit s more
  | .plain _, fit => fit
  | .list _, fit => ElementDraft.AllFit.imp weaker fit

theorem ElementDraft.IsFit.imp {more : Value → Prop} (weaker : ∀ v, given v → more v) :
    {d : ElementDraft} → d.IsFit s given → d.IsFit s more
  | .plain _, fit => fit
  | .schema _, fit => FieldDraft.AllFit.imp weaker fit

theorem ElementDraft.AllFit.imp {more : Value → Prop} (weaker : ∀ v, given v → more v) :
    {ds : List ElementDraft} → ElementDraft.AllFit s given ds → ElementDraft.AllFit s more ds
  | [], _ => trivial
  | _ :: _, fit => ⟨ElementDraft.IsFit.imp weaker fit.1, ElementDraft.AllFit.imp weaker fit.2⟩

theorem FieldDraft.IsFit.imp {more : Value → Prop} (weaker : ∀ v, given v → more v) :
    {d : FieldDraft} → d.IsFit s given → d.IsFit s more
  | .stored _, fit => fit
  | .fresh _ o, fit => ⟨TagDraft.IsFit.imp weaker fit.1, weaker o.sample fit.2⟩

theorem FieldDraft.AllFit.imp {more : Value → Prop} (weaker : ∀ v, given v → more v) :
    {ds : List (Text × FieldDraft)} → FieldDraft.AllFit s given ds → FieldDraft.AllFit s more ds
  | [], _ => trivial
  | _ :: _, fit =>
    ⟨fit.1, FieldDraft.IsFit.imp weaker fit.2.1, FieldDraft.AllFit.imp weaker fit.2.2⟩

end

end Fit

/-- The values are held, and among them are the absent one and the parts of all that the store has.
-/
structure Store.Gives (s : Store) (given : Value → Prop) : Prop where
  held : ∀ {v}, given v → s.Holds v
  null : given .null
  parts : ∀ {v c}, s.deref? v = some c → ∀ w ∈ c.parts, given w

theorem Store.Closed.gives {s : Store} (closed : s.Closed) : s.Gives s.Holds :=
  ⟨id, s.holds_scalar _, closed.holds_parts_of_deref?⟩

namespace Draft

variable {s : Store} {given : Value → Prop}

theorem namedTag_namedTag (v : Value) : namedTag (namedTag v) = namedTag v := by
  cases v with
  | ref p => rfl
  | scalar x =>
    cases named : x.asText?.bind FieldType.ofName? with
    | none =>
      have stays : namedTag (.scalar x) = .scalar x := by simp only [namedTag, named]
      rw [stays, stays]
    | some tag =>
      have becomes : namedTag (.scalar x) = .scalar (.fieldType tag) := by
        simp only [namedTag, named]
      rw [becomes]
      cases tag <;> rfl

theorem holds_namedTag {v : Value} (held : s.Holds v) : s.Holds (namedTag v) := by
  cases v with
  | ref p => exact held
  | scalar x =>
    unfold namedTag
    dsimp only
    split
    · exact s.holds_scalar _
    · exact s.holds_scalar x

theorem isFit_namedTag {v : Value} (held : s.Holds v)
    (other : ∀ items, s.deref? v ≠ some (.list items)) :
    (TagDraft.plain (namedTag v)).IsFit s given := by
  refine ⟨holds_namedTag held, namedTag_namedTag v, ?_⟩
  cases v with
  | ref p => exact other
  | scalar x =>
    unfold namedTag
    dsimp only
    split <;> exact nofun

theorem isElement_namedTag {v : Value} (held : s.Holds v)
    (other : ∀ entries, s.deref? v ≠ some (.map entries)) : s.IsElement (namedTag v) := by
  refine ⟨holds_namedTag held, namedTag_namedTag v, fun entries map => ?_⟩
  cases v with
  | ref p => exact absurd map (other entries)
  | scalar x =>
    unfold namedTag at map
    dsimp only at map
    split at map
    · cases map
    · cases map

/-- The entries of a mapping that is given to a check. -/
def AllHeld (s : Store) (entries : List (Value × Value)) : Prop := ∀ e ∈ entries, s.Holds e.2

theorem given_of_lookupText? {entries : List (Value × Value)} {key : Text} {v : Value}
    (each : ∀ e ∈ entries, given e.2) (found : lookupText? entries key = some v) : given v := by
  obtain ⟨e, member, rfl⟩ := Option.map_eq_some_iff.mp found
  exact each e (List.mem_of_find?_eq_some member)

theorem given_of_deref? (gives : s.Gives given) {v : Value} {entries : List (Value × Value)}
    (cell : s.deref? v = some (.map entries)) : ∀ e ∈ entries, given e.2 := fun e member =>
  gives.parts cell e.2 (List.mem_flatMap.mpr ⟨e, member, by simp⟩)

theorem allHeld_of_deref? (closed : s.Closed) {v : Value} {entries : List (Value × Value)}
    (cell : s.deref? v = some (.map entries)) : AllHeld s entries :=
  given_of_deref? closed.gives cell

/-- An attribute that is left out is absent, any other is checked. -/
theorem of_optional {α : Type} {entries : List (Value × Value)} {name : String} {absent a : α}
    {check : Value → Checked α} (done : Check.optional entries name absent check = .accepted a) :
    a = absent ∨ ∃ v, lookupText? entries (text name) = some v ∧ check v = .accepted a := by
  unfold Check.optional at done
  split at done
  · exact .inl (Checked.accepted.inj done).symm
  · next v found => exact .inr ⟨v, found, Checked.of_within done⟩

theorem given_sample_of_options (gives : s.Gives given) {entries : List (Value × Value)}
    {o : Options} (each : ∀ e ∈ entries, given e.2) (done : options s entries = .accepted o) :
    given o.sample := by
  obtain ⟨_, _, upToTarget, -, rfl⟩ := Checked.exists_of_seq done
  obtain ⟨_, _, upToGreatest, -, rfl⟩ := Checked.exists_of_seq upToTarget
  obtain ⟨_, _, upToLeast, -, rfl⟩ := Checked.exists_of_seq upToGreatest
  obtain ⟨_, _, upToChoices, -, rfl⟩ := Checked.exists_of_seq upToLeast
  obtain ⟨_, _, upToSample, -, rfl⟩ := Checked.exists_of_seq upToChoices
  obtain ⟨_, sample, upToDescription, sampled, rfl⟩ := Checked.exists_of_seq upToSample
  obtain ⟨_, _, upToRequired, -, rfl⟩ := Checked.exists_of_seq upToDescription
  obtain ⟨_, -, rfl⟩ := Checked.exists_of_map upToRequired
  rcases of_optional sampled with rfl | ⟨v, found, accepts⟩
  · exact gives.null
  · obtain rfl := Checked.accepted.inj accepts
    exact given_of_lookupText? each found

/-! ## Checks come to fit drafts -/

/-- Whatever the check accepts of given entries is fit. -/
def ComesToFit (s : Store) (given : Value → Prop)
    (fresh : List (Value × Value) → Checked FieldDraft) : Prop :=
  ∀ entries d, (∀ e ∈ entries, given e.2) → fresh entries = .accepted d → d.IsFit s given

section Nested

variable {fresh : List (Value × Value) → Checked FieldDraft}

theorem isFit_ofEntry (gives : s.Gives given) (fit : ComesToFit s given fresh) {v : Value}
    {d : FieldDraft} (begins : given v) (done : ofEntry s fresh v = .accepted d) :
    d.IsFit s given := by
  have bare : ∀ e ∈ [(Value.ofText (text "type"), v)], given e.2 :=
    List.forall_mem_singleton.mpr begins
  unfold ofEntry at done
  dsimp only at done
  split at done
  · next f cell =>
    obtain rfl := Checked.accepted.inj done
    exact ⟨f, cell⟩
  · next entries cell =>
    split at done
    · exact fit entries d (given_of_deref? gives cell) done
    · exact fit _ d bare done
  · exact fit _ d bare done

theorem map_fst_insertField (fields : SchemaDraft) (name : Text) (field : FieldDraft) :
    (insertField fields name field).map Prod.fst =
      if name ∈ fields.map Prod.fst then fields.map Prod.fst
      else fields.map Prod.fst ++ [name] := by
  induction fields with
  | nil => simp [insertField]
  | cons entry rest ih =>
    by_cases same : entry.1 = name
    · simp [insertField, same]
    · have different : ¬ name = entry.1 := fun h => same h.symm
      by_cases later : name ∈ rest.map Prod.fst
      · simp only [insertField, same, if_false, List.map_cons, ih, later, if_true,
          List.mem_cons, or_true]
      · simp only [insertField, same, if_false, List.map_cons, ih, later, List.mem_cons, different,
          or_false, List.cons_append]

theorem mem_insertField {fields : SchemaDraft} {name : Text} {field : FieldDraft}
    {e : Text × FieldDraft} (member : e ∈ insertField fields name field) :
    e ∈ fields ∨ e = (name, field) := by
  induction fields with
  | nil => exact .inr (List.mem_singleton.mp member)
  | cons entry rest ih =>
    rw [insertField] at member
    split at member
    · rcases List.mem_cons.mp member with rfl | member
      · exact .inr rfl
      · exact .inl (List.mem_cons_of_mem _ member)
    · rcases List.mem_cons.mp member with rfl | member
      · exact .inl List.mem_cons_self
      · exact (ih member).imp_left fun before => List.mem_cons_of_mem _ before

theorem allFit_insertField {fields : SchemaDraft} {name : Text} {field : FieldDraft}
    (fit : FieldDraft.AllFit s given fields) (fits : field.IsFit s given) :
    FieldDraft.AllFit s given (insertField fields name field) := by
  obtain ⟨nodup, each⟩ := FieldDraft.allFit_iff.mp fit
  refine FieldDraft.allFit_iff.mpr ⟨?_, fun e member => ?_⟩
  · rw [map_fst_insertField]
    split
    · exact nodup
    · next fresh =>
      rw [List.nodup_append]
      refine ⟨nodup, List.nodup_cons.mpr ⟨List.not_mem_nil, List.nodup_nil⟩, ?_⟩
      rintro a before b last rfl
      exact fresh (List.mem_singleton.mp last ▸ before)
  · rcases mem_insertField member with before | rfl
    · exact each e before
    · exact fits

theorem allFit_foldl_insertField {entries : List (Text × FieldDraft)} {found : SchemaDraft}
    (each : ∀ e ∈ entries, e.2.IsFit s given) (fit : FieldDraft.AllFit s given found) :
    FieldDraft.AllFit s given
      (entries.foldl (fun found (name, field) => insertField found name field) found) := by
  induction entries generalizing found with
  | nil => exact fit
  | cons entry rest ih =>
    have first : FieldDraft.AllFit s given (insertField found entry.1 entry.2) :=
      allFit_insertField fit (each entry List.mem_cons_self)
    exact ih (fun e member => each e (List.mem_cons_of_mem _ member)) first

theorem allFit_ofFields (gives : s.Gives given) (fit : ComesToFit s given fresh) {v : Value}
    {d : SchemaDraft} (done : ofFields s fresh v = .accepted d) : FieldDraft.AllFit s given d := by
  unfold ofFields at done
  split at done
  · next entries cell =>
    obtain ⟨fields, accepts, rfl⟩ := Checked.exists_of_map done
    refine allFit_foldl_insertField (fun e member => ?_) trivial
    obtain ⟨⟨key, value⟩, listed, accepted⟩ := Checked.exists_of_all accepts e member
    obtain ⟨-, checked⟩ := Checked.of_both accepted
    have begins := given_of_deref? gives cell (key, value) listed
    exact isFit_ofEntry gives fit begins (Checked.of_within checked)
  · cases done

theorem allFit_ofSchema (gives : s.Gives given) (fit : ComesToFit s given fresh)
    {entries : List (Value × Value)} {d : SchemaDraft}
    (done : ofSchema s fresh entries = .accepted d) : FieldDraft.AllFit s given d := by
  rcases of_optional done with rfl | ⟨v, -, accepts⟩
  · trivial
  · exact allFit_ofFields gives fit accepts

theorem isFit_ofElement (gives : s.Gives given) (fit : ComesToFit s given fresh) {v : Value}
    {d : ElementDraft} (begins : given v) (done : ofElement s fresh v = .accepted d) :
    d.IsFit s given := by
  unfold ofElement at done
  split at done
  · next entries cell =>
    split at done
    · split at done
      · cases done
      · obtain ⟨fields, accepts, rfl⟩ := Checked.exists_of_map done
        exact allFit_ofSchema gives fit accepts
    · next noFields =>
      obtain rfl := Checked.accepted.inj done
      refine ⟨gives.held begins, ?_, fun entries' map => ?_⟩
      · cases v with
        | ref p => rfl
        | scalar x => cases cell
      · obtain rfl := Cell.map.inj (Option.some.inj (map.symm.trans cell))
        exact Option.not_isSome_iff_eq_none.mp noFields
  · next other =>
    obtain rfl := Checked.accepted.inj done
    exact isElement_namedTag (gives.held begins) other

theorem isFit_ofTag (gives : s.Gives given) (fit : ComesToFit s given fresh) {v : Value}
    {d : TagDraft} (begins : given v) (done : ofTag s fresh v = .accepted d) :
    d.IsFit s given := by
  unfold ofTag at done
  split at done
  · next items cell =>
    obtain ⟨elements, accepts, rfl⟩ := Checked.exists_of_map done
    refine ElementDraft.allFit_iff.mpr fun element member => ?_
    obtain ⟨item, listed, accepted⟩ := Checked.exists_of_inOrder accepts element member
    exact isFit_ofElement gives fit (gives.parts cell item listed) accepted
  · next other =>
    obtain rfl := Checked.accepted.inj done
    exact isFit_namedTag (gives.held begins) other

end Nested

/-- A field that is accepted from the entries of a mapping is fit, whatever bounds the nesting. -/
theorem comesToFit_ofMapping (gives : s.Gives given) (depth : Nat) :
    ComesToFit s given (ofMapping s depth) := by
  induction depth with
  | zero => exact fun entries d each done => by cases done
  | succ depth ih =>
    intro entries d each done
    obtain ⟨_, o, upToTag, options, rfl⟩ := Checked.exists_of_seq done
    obtain ⟨tag, typed, rfl⟩ := Checked.exists_of_map upToTag
    refine ⟨?_, given_sample_of_options gives each options⟩
    rcases of_optional typed with rfl | ⟨v, found, accepts⟩
    · exact ⟨s.holds_scalar _, rfl, nofun⟩
    · exact isFit_ofTag gives ih (given_of_lookupText? each found) accepts

end Draft

theorem Check.eq_of_attributes {entries found : List (Value × Value)}
    (done : Check.attributes entries = .ok found) : found = entries := by
  unfold Check.attributes at done
  split at done
  · exact (Except.ok.inj done).symm
  · cases done

/-- A schema that validation accepts is fit. -/
theorem SchemaDraft.allFit_of_check {s : Store} (closed : s.Closed)
    {entries : List (Value × Value)} {d : SchemaDraft}
    (done : SchemaDraft.check s entries = .ok d) : FieldDraft.AllFit s s.Holds d := by
  unfold SchemaDraft.check at done
  cases named : Check.attributes entries with
  | error fault =>
    rw [named] at done
    cases done
  | ok found =>
    rw [named] at done
    exact Draft.allFit_ofSchema closed.gives (Draft.comesToFit_ofMapping closed.gives _)
      (Checked.of_result done)

end SwaggerDoc
