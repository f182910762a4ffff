import SwaggerDoc.Proofs.Outcome
import SwaggerDoc.Proofs.Schema.Depth
import SwaggerDoc.Proofs.Schema.Outlined
import SwaggerDoc.Document.Compile

/-!
The depth of a reading does not matter.

A schema that was altered can contain itself. Reading it comes to an end only because it is bounded,
and whoever collects the outline comes to nothing. An outline that was read deeper leads to the same,
unless the first one was not deep enough (`Outline.LeadsTo`), and with as many rounds as there are
places nothing changes any more. Hence a schema that a store holds leads to the same outcome in every
store that has more (`Outline.leadsTo_read_of_extends` and the other way round).
-/

namespace SwaggerDoc

/-! ## Reports that go deeper -/

namespace Report

variable {α β : Type}

/-- The second report comes to what the first comes to, unless that was too deep. -/
def LeadsTo (r r' : Report α) : Prop := ∀ j, (r j).1 = .error .tooDeep ∨ r j = r' j

theorem LeadsTo.refl (r : Report α) : r.LeadsTo r := fun _ => .inr rfl

variable {r r' : Report α}

/-- What follows has to go deeper only behind results that both reports come to. -/
theorem LeadsTo.bind (leads : r.LeadsTo r') {f f' : α → Report β}
    (later : ∀ a j j', r j = (.ok a, j') → r' j = (.ok a, j') →
      (f a j').1 = .error .tooDeep ∨ f a j' = f' a j') :
    (r >>= f).LeadsTo (r' >>= f') := by
  intro j
  simp only [Bind.bind, Report.bind]
  rcases leads j with deep | same
  · left
    cases first : r j with
    | mk result j' =>
      rw [first] at deep
      obtain rfl : result = .error .tooDeep := deep
      rfl
  · rw [← same]
    cases first : r j with
    | mk result j' =>
      cases result with
      | error fault => exact .inr rfl
      | ok a => exact later a j j' first (same.symm.trans first)

theorem LeadsTo.bind_left (leads : r.LeadsTo r') (f : α → Report β) :
    (r >>= f).LeadsTo (r' >>= f) :=
  leads.bind fun _ _ _ _ _ => .inr rfl

theorem LeadsTo.blame (leads : r.LeadsTo r') (field : Name) :
    (r.blame field).LeadsTo (r'.blame field) := by
  intro j
  simp only [Report.blame]
  rcases leads j with deep | same
  · left
    cases first : r j with
    | mk result j' =>
      rw [first] at deep
      obtain rfl : result = .error .tooDeep := deep
      rfl
  · rw [same]
    exact .inr rfl

/-- The reports come to the same result, whatever was noted before and whatever they note. -/
def SameResult (r r' : Report α) : Prop := ∀ j j', (r j).1 = (r' j').1

theorem SameResult.bind (same : r.SameResult r') {f f' : α → Report β}
    (later : ∀ a, (f a).SameResult (f' a)) : (r >>= f).SameResult (r' >>= f') := by
  intro j j'
  simp only [Bind.bind, Report.bind]
  have results := same j j'
  cases first : r j with
  | mk result k =>
    cases second : r' j' with
    | mk result' k' =>
      rw [first, second] at results
      obtain rfl : result = result' := results
      cases result with
      | error fault => rfl
      | ok a => exact later a k k'

theorem sameResult_ofExcept (result : Except Fault α) :
    (ofExcept result).SameResult (ofExcept result) :=
  fun _ _ => rfl

theorem SameResult.blame (same : r.SameResult r') (field : Name) :
    (r.blame field).SameResult (r'.blame field) := by
  intro j j'
  have results := same j j'
  simp only [Report.blame]
  cases first : r j with
  | mk result k =>
    cases second : r' j' with
    | mk result' k' =>
      rw [first, second] at results
      obtain rfl : result = result' := results
      split
      · next tag shown k same =>
        obtain ⟨rfl, rfl⟩ := Prod.mk.inj same
        rfl
      · next other =>
        split
        · next tag shown k'' same =>
          obtain ⟨rfl, rfl⟩ := Prod.mk.inj same
          exact absurd rfl (other tag shown k)
        · rfl

end Report

/-! ## Names do not change what is collected -/

/-- The name can be reported and put in front of others. -/
def DefinitionName.IsGiven (name : DefinitionName) : Prop :=
  ∃ reported written, name = ⟨.ok reported, .ok written⟩

theorem DefinitionName.isGiven_ofText (t : Text) : (DefinitionName.ofText t).IsGiven := ⟨t, t, rfl⟩

theorem DefinitionName.IsGiven.exists_nested {name : DefinitionName} (given : name.IsGiven)
    (field : Name) : ∃ inner, name.nested field = .ok inner ∧ inner.IsGiven := by
  obtain ⟨reported, written, rfl⟩ := given
  cases empty : written.isEmpty with
  | true => exact ⟨⟨.ok field.characters, .ok field.written⟩, by simp [nested, bind, Except.bind,
      empty, pure, Except.pure], _, _, rfl⟩
  | false => exact ⟨.ofText (written ++ text "." ++ field.written), by simp [nested, bind,
      Except.bind, empty, pure, Except.pure], isGiven_ofText _⟩

theorem Fallback.sameResult_of? {name name' : DefinitionName} (given : name.IsGiven)
    (given' : name'.IsGiven) (field : Name) (tag : Tag) (kind : Kind) {α : Type} (a : α) :
    (do
      match ← Report.ofExcept (Fallback.of? name field tag kind) with
      | none => return a
      | some f => do
        Report.fallback f
        return a).SameResult
    (do
      match ← Report.ofExcept (Fallback.of? name' field tag kind) with
      | none => return a
      | some f => do
        Report.fallback f
        return a) := by
  obtain ⟨reported, written, rfl⟩ := given
  obtain ⟨reported', written', rfl⟩ := given'
  intro j j'
  unfold Fallback.of?
  split
  · next s =>
    cases s.describedTag <;> rfl
  · rfl

mutual

theorem Tag.sameResult_kind {name name' : DefinitionName} (given : name.IsGiven)
    (given' : name'.IsGiven) (target : Except Fault Text) :
    (t : Tag) → (t.kind name target).SameResult (t.kind name' target)
  | .nested element => (element.sameResult_collect given given').bind fun _ _ _ => rfl
  | .list => fun _ _ => rfl
  | .plain _ => Report.sameResult_ofExcept _

theorem Entry.sameResult_property {name name' inner inner' : DefinitionName} (given : name.IsGiven)
    (given' : name'.IsGiven) (givenInner : inner.IsGiven) (givenInner' : inner'.IsGiven)
    (field : Name) :
    (e : Entry) → (e.property name inner field).SameResult (e.property name' inner' field)
  | .broken _ => fun _ _ => rfl
  | .bare tag target => by
    refine ((tag.sameResult_kind givenInner givenInner' target).blame field).bind fun kind? => ?_
    cases kind? <;> exact fun _ _ => rfl
  | .declared tag m => by
    refine ((tag.sameResult_kind givenInner givenInner' m.target).blame field).bind fun kind? => ?_
    cases kind? with
    | none => exact fun _ _ => rfl
    | some kind =>
      exact (Report.sameResult_ofExcept _).bind fun property =>
        Fallback.sameResult_of? given given' field tag kind (some (property, m.required))

/-- What an outline is collected to does not depend on the name of the definition. -/
theorem Outline.sameResult_collect {name name' : DefinitionName} (given : name.IsGiven)
    (given' : name'.IsGiven) : (o : Outline) → (o.collect name).SameResult (o.collect name')
  | .done | .broken _ => fun _ _ => rfl
  | .field field entry rest => by
    obtain ⟨inner, nested, givenInner⟩ := given.exists_nested field
    obtain ⟨inner', nested', givenInner'⟩ := given'.exists_nested field
    simp only [Outline.collect, nested, nested', Report.ofExcept_ok, pure_bind]
    refine (entry.sameResult_property given given' givenInner givenInner' field).bind fun found => ?_
    refine (rest.sameResult_collect given given').bind fun later => ?_
    cases found <;> exact fun _ _ => rfl

end

/-! ## What is broken is not collected -/

mutual

theorem Tag.isBroken_of_kind {name : DefinitionName} {target : Except Fault Text} {j : Journal}
    {kind? : Option Kind} :
    {t : Tag} → (t.kind name target j).1 = .ok kind? → t.isBroken = false
  | .nested element, done => by
    obtain ⟨c, j', collected, -⟩ := Report.exists_of_bind done
    exact Outline.isBroken_of_collect collected
  | .list, _ | .plain _, _ => rfl

theorem Entry.isBroken_of_property {name inner : DefinitionName} {field : Name} {j : Journal}
    {found : Option (Property × Bool)} :
    {e : Entry} → (e.property name inner field j).1 = .ok found → e.isBroken = false
  | .broken _, done => by cases done
  | .bare tag target, done | .declared tag _, done => by
    obtain ⟨kind?, j', mapped, -⟩ := Report.exists_of_bind done
    exact Tag.isBroken_of_kind (Report.of_blame mapped)

/-- An outline that is collected is not broken. -/
theorem Outline.isBroken_of_collect {name : DefinitionName} {j : Journal} {c : Collected} :
    {o : Outline} → (o.collect name j).1 = .ok c → o.isBroken = false
  | .done, _ => rfl
  | .broken _, done => by cases done
  | .field field entry rest, done => by
    obtain ⟨inner, j', -, done⟩ := Report.exists_of_bind done
    obtain ⟨found, j'', described, done⟩ := Report.exists_of_bind done
    obtain ⟨later, j''', collected, -⟩ := Report.exists_of_bind done
    rw [Outline.isBroken, Entry.isBroken_of_property described,
      Outline.isBroken_of_collect collected, Bool.or_false]

end

/-! ## Outlines that go deeper -/

/-- Collecting the second outline comes to what collecting the first comes to, unless that was not
read deep enough. -/
def Outline.LeadsTo (o o' : Outline) : Prop :=
  ∀ name : DefinitionName, name.IsGiven → (o.collect name).LeadsTo (o'.collect name)

/-- The types are the same, or schemas inside them of which the second goes deeper. -/
inductive Tag.LeadsTo : Tag → Tag → Prop
  | refl (t : Tag) : Tag.LeadsTo t t
  | nested {o o' : Outline} : o.LeadsTo o' → Tag.LeadsTo (.nested o) (.nested o')

/-- The entries are the same up to the depth of their types. -/
inductive Entry.LeadsTo : Entry → Entry → Prop
  | declared {tag tag' : Tag} {m : Modifiers} :
    tag.LeadsTo tag' → Entry.LeadsTo (.declared tag m) (.declared tag' m)
  | bare {tag tag' : Tag} {target : Except Fault Text} :
    tag.LeadsTo tag' → Entry.LeadsTo (.bare tag target) (.bare tag' target)
  | broken (fault : Fault) : Entry.LeadsTo (.broken fault) (.broken fault)

theorem Outline.LeadsTo.refl (o : Outline) : o.LeadsTo o := fun _ _ => .refl _

theorem Outline.LeadsTo.trans {o o' o'' : Outline} (left : o.LeadsTo o') (right : o'.LeadsTo o'') :
    o.LeadsTo o'' := by
  intro name given j
  rcases left name given j with deep | same
  · exact .inl deep
  · rw [same]
    exact right name given j

theorem Tag.LeadsTo.kind {t t' : Tag} (leads : t.LeadsTo t') {name : DefinitionName}
    (given : name.IsGiven) (target : Except Fault Text) :
    (t.kind name target).LeadsTo (t'.kind name target) := by
  cases leads with
  | refl => exact .refl _
  | nested inside => exact (inside name given).bind_left _

theorem Tag.LeadsTo.fallback_eq {t t' : Tag} (leads : t.LeadsTo t') (name : DefinitionName)
    (field : Name) (kind : Kind) :
    Fallback.of? name field t kind = Fallback.of? name field t' kind := by
  cases leads with
  | refl => rfl
  | nested => cases kind <;> rfl

theorem Entry.LeadsTo.property {e e' : Entry} (leads : e.LeadsTo e') (name : DefinitionName)
    {inner : DefinitionName} (given : inner.IsGiven) (field : Name) :
    (e.property name inner field).LeadsTo (e'.property name inner field) := by
  cases leads with
  | broken => exact .refl _
  | bare type => exact ((type.kind given _).blame field).bind_left _
  | declared type =>
    simp only [Entry.property, ← type.fallback_eq]
    exact ((type.kind given _).blame field).bind_left _

theorem Outline.LeadsTo.field {field : Name} {e e' : Entry} {rest rest' : Outline}
    (first : e.LeadsTo e')
    (later : e.isBroken = false → e'.isBroken = false → rest.LeadsTo rest') :
    (Outline.field field e rest).LeadsTo (.field field e' rest') := by
  intro name given
  obtain ⟨inner, nested, givenInner⟩ := given.exists_nested field
  simp only [Outline.collect, nested, Report.ofExcept_ok, pure_bind]
  refine (first.property name givenInner field).bind fun found j j' described described' => ?_
  have whole := Entry.isBroken_of_property (congrArg Prod.fst described)
  have whole' := Entry.isBroken_of_property (congrArg Prod.fst described')
  exact (later whole whole' name given).bind_left _ j'

theorem Outline.leadsTo_ofEntries {entry entry' : Value → Entry} :
    {entries : List (Value × Value)} → (∀ e ∈ entries, (entry e.2).LeadsTo (entry' e.2)) →
      (Outline.ofEntries entry entries).LeadsTo (Outline.ofEntries entry' entries)
  | [], _ => .refl _
  | (key, value) :: rest, leads => by
    have later : (Outline.ofEntries entry rest).LeadsTo (Outline.ofEntries entry' rest) :=
      Outline.leadsTo_ofEntries fun e member => leads e (List.mem_cons_of_mem _ member)
    unfold Outline.ofEntries
    split
    · exact .refl _
    · split
      · exact .refl _
      · split
        · exact later
        · refine .field (leads _ List.mem_cons_self) fun whole whole' => ?_
          rw [whole, whole']
          exact later
    · exact .refl _

/-! ## Modifiers in stores that have more -/

section Modifiers

variable {s u : Store}

theorem Store.Extends.truthy_eq (extends' : s.Extends u) {v : Value} (held : s.Holds v) :
    u.truthy v = s.truthy v := by
  cases v with
  | scalar x => rfl
  | ref p => rw [Store.truthy, Store.truthy, extends'.cell?_eq p (Store.holds_ref.mp held)]

theorem Store.Extends.choices_eq (extends' : s.Extends u) {v : Value} (held : s.Holds v) :
    u.choices v = s.choices v := by
  cases v with
  | scalar x => cases x <;> rfl
  | ref p =>
    have filled := Store.holds_ref.mp held
    rw [Store.choices, Store.choices, extends'.cell?_eq p filled, extends'.shownAttributes?_eq filled]

theorem Store.Closed.modifiers_of_extends (closed : s.Closed) (extends' : s.Extends u) {v : Value}
    {f : FieldCell} (cell : s.deref? v = some (.field f)) : u.modifiers f = s.modifiers f := by
  have held := closed.holds_parts_of_deref? cell
  simp only [Cell.parts, FieldCell.attributes, List.mem_cons, List.not_mem_nil, or_false,
    forall_eq_or_imp, forall_eq] at held
  obtain ⟨-, required, description, -, choices, -, -, target, readonly⟩ := held
  simp only [Store.modifiers, extends'.truthy_eq required, extends'.truthy_eq description,
    extends'.truthy_eq choices, extends'.choices_eq choices, extends'.truthy_eq target,
    closed.written_of_extends extends' target, extends'.truthy_eq readonly]

end Modifiers

/-! ## Reading in stores that have more -/

/-- What a store holds is taken for the same declaration in every store that has more. -/
theorem FieldDraft.ofOptions_of_extends {s u : Store} (closed : s.Closed) (extends' : s.Extends u)
    {v : Value} (held : s.Holds v) : FieldDraft.ofOptions u v = FieldDraft.ofOptions s v := by
  have bare : FieldDraft.ofTag u v = FieldDraft.ofTag s v := by
    rw [FieldDraft.ofTag, FieldDraft.ofTag,
      Draft.field_of_extends closed extends' (List.forall_mem_singleton.mpr held)]
  rw [FieldDraft.ofOptions, FieldDraft.ofOptions, extends'.deref?_eq held, bare]
  split
  · rfl
  · next entries cell =>
    have given : FieldDraft.check u entries = FieldDraft.check s entries := by
      rw [FieldDraft.check, FieldDraft.check]
      cases named : Check.attributes entries with
      | error fault => rfl
      | ok found =>
        obtain rfl := Check.eq_of_attributes named
        have same := Draft.field_of_extends closed extends' (Draft.allHeld_of_deref? closed cell)
        simp only [bind, Except.bind, same]
    rw [given]
  · rfl

section Readers

variable {s t u : Store} (closed : s.Closed) (left : s.Extends t) (right : s.Extends u)
  {nested nested' : Value → Outline} (inner : ∀ v, s.Holds v → (nested v).LeadsTo (nested' v))
include left right inner

theorem Tag.leadsTo_ofFirst {first : Value} (held : s.Holds first) :
    (Tag.ofFirst t nested first).LeadsTo (Tag.ofFirst u nested' first) := by
  rw [Tag.ofFirst, Tag.ofFirst, left.deref?_eq held, right.deref?_eq held]
  split
  · exact .nested (inner first held)
  · exact .refl _

include closed

theorem Tag.leadsTo_read {v : Value} (held : s.Holds v) :
    (Tag.read t nested v).LeadsTo (Tag.read u nested' v) := by
  rw [Tag.read, Tag.read, left.deref?_eq held, right.deref?_eq held]
  split
  · next first rest cell =>
    exact Tag.leadsTo_ofFirst left right inner
      (closed.holds_parts_of_deref? cell first List.mem_cons_self)
  · exact .refl _
  · exact .refl _

theorem Entry.leadsTo_stored {v : Value} (held : s.Holds v) :
    (Entry.stored t nested v).LeadsTo (Entry.stored u nested' v) := by
  rw [Entry.stored, Entry.stored, left.deref?_eq held, right.deref?_eq held]
  split
  · next f cell =>
    rw [closed.modifiers_of_extends left cell, closed.modifiers_of_extends right cell]
    refine .declared (Tag.leadsTo_read closed left right inner ?_)
    exact closed.holds_parts_of_deref? cell f.tag (by simp [Cell.parts, FieldCell.attributes])
  · exact .broken _

end Readers

section Drafts

variable {s t u : Store} {nested nested' : Value → Outline}

mutual

theorem TagDraft.leadsTo_outline (closed : s.Closed) (left : s.Extends t) (right : s.Extends u)
    (inner : ∀ v, s.Holds v → (nested v).LeadsTo (nested' v)) :
    {d : TagDraft} → d.IsFit s s.Holds → (d.outline t nested).LeadsTo (d.outline u nested')
  | .plain _, _ | .list [], _ => .refl _
  | .list (_ :: _), fit => ElementDraft.leadsTo_outline closed left right inner fit.1

theorem ElementDraft.leadsTo_outline (closed : s.Closed) (left : s.Extends t)
    (right : s.Extends u) (inner : ∀ v, s.Holds v → (nested v).LeadsTo (nested' v)) :
    {d : ElementDraft} → d.IsFit s s.Holds → (d.outline t nested).LeadsTo (d.outline u nested')
  | .plain _, fit => Tag.leadsTo_ofFirst left right inner fit.held
  | .schema _, fit => .nested (FieldDraft.leadsTo_outlineAll closed left right inner fit)

theorem FieldDraft.leadsTo_outline (closed : s.Closed) (left : s.Extends t) (right : s.Extends u)
    (inner : ∀ v, s.Holds v → (nested v).LeadsTo (nested' v)) :
    {d : FieldDraft} → d.IsFit s s.Holds → (d.outline t nested).LeadsTo (d.outline u nested')
  | .stored _, ⟨_, cell⟩ =>
    Entry.leadsTo_stored closed left right inner (Store.Holds.of_deref? cell)
  | .fresh _ _, fit => .declared (TagDraft.leadsTo_outline closed left right inner fit.1)

theorem FieldDraft.leadsTo_outlineAll (closed : s.Closed) (left : s.Extends t)
    (right : s.Extends u) (inner : ∀ v, s.Holds v → (nested v).LeadsTo (nested' v)) :
    {ds : List (Text × FieldDraft)} → FieldDraft.AllFit s s.Holds ds →
      (FieldDraft.outlineAll t nested ds).LeadsTo (FieldDraft.outlineAll u nested' ds)
  | [], _ => .refl _
  | (name, d) :: rest, ⟨_, fits, fit⟩ => by
    have later := FieldDraft.leadsTo_outlineAll closed left right inner fit
    rw [FieldDraft.outlineAll, FieldDraft.outlineAll]
    split
    · exact later
    · exact .field (FieldDraft.leadsTo_outline closed left right inner fits) fun _ _ => later

end

end Drafts

section Schemas

variable {s t u : Store} (closed : s.Closed) (left : s.Extends t) (right : s.Extends u)
include closed left right

section Inside

variable {nested nested' : Value → Outline}
  (inner : ∀ v, s.Holds v → (nested v).LeadsTo (nested' v))
include inner

theorem Entry.leadsTo_ofOptions {v : Value} (held : s.Holds v) :
    (Entry.ofOptions t nested v).LeadsTo (Entry.ofOptions u nested' v) := by
  rw [Entry.ofOptions_eq, Entry.ofOptions_eq, FieldDraft.ofOptions_of_extends closed left held,
    FieldDraft.ofOptions_of_extends closed right held]
  split
  · next d draft =>
    exact FieldDraft.leadsTo_outline closed left right inner
      (FieldDraft.isFit_ofOptions closed held draft)
  · exact .broken _

theorem Entry.leadsTo_read {v : Value} (held : s.Holds v) :
    (Entry.read t nested v).LeadsTo (Entry.read u nested' v) := by
  have options := Entry.leadsTo_ofOptions closed left right inner held
  rw [Entry.read, Entry.read, left.deref?_eq held, right.deref?_eq held]
  split
  · exact Entry.leadsTo_stored closed left right inner held
  · generalize Entry.ofOptions t nested v = e at options ⊢
    generalize Entry.ofOptions u nested' v = e' at options ⊢
    cases options with
    | declared type | bare type => exact .bare type
    | broken fault => exact .broken fault

end Inside

/-- One more round of schemas goes deeper if the schemas inside do. -/
theorem Outline.leadsTo_readWithin_succ {n m : Nat}
    (inner : ∀ v, s.Holds v → (readWithin t n v).LeadsTo (readWithin u m v)) {v : Value}
    (held : s.Holds v) : (readWithin t (n + 1) v).LeadsTo (readWithin u (m + 1) v) := by
  rw [readWithin, readWithin, left.deref?_eq held, right.deref?_eq held]
  split
  · next fields cell =>
    have inside := closed.holds_parts_of_deref? cell fields (List.mem_singleton_self fields)
    rw [left.deref?_eq inside, right.deref?_eq inside]
    split
    · next entries map =>
      exact leadsTo_ofEntries fun e member =>
        Entry.leadsTo_read closed left right inner (Draft.allHeld_of_deref? closed map e member)
    · exact .refl _
  · exact .refl _

/-- A reading with a larger bound goes deeper, in each of two stores that have more. -/
theorem Outline.leadsTo_readWithin {n m : Nat} (deeper : n ≤ m) {v : Value} (held : s.Holds v) :
    (readWithin t n v).LeadsTo (readWithin u m v) := by
  induction n generalizing m v with
  | zero => exact fun _ _ _ => .inl rfl
  | succ n ih =>
    obtain ⟨m, rfl⟩ : ∃ k, m = k + 1 := ⟨m - 1, by omega⟩
    exact leadsTo_readWithin_succ closed left right
      (fun _ inside => ih (Nat.le_of_succ_le_succ deeper) inside) held

end Schemas

/-! ## The bound of the depth does not matter -/

/-- Whatever the definition is called, the outline is not deep enough to be collected. -/
def Outline.IsShallow (o : Outline) : Prop :=
  ∀ name : DefinitionName, name.IsGiven → ∀ j, (o.collect name j).1 = .error .tooDeep

theorem Outline.isShallow_of_collect {o : Outline} {name : DefinitionName} (given : name.IsGiven)
    {j : Journal} (failed : (o.collect name j).1 = .error .tooDeep) : o.IsShallow :=
  fun _ given' j' => (o.sameResult_collect given' given j' j).trans failed

theorem Outline.LeadsTo.isShallow {o o' : Outline} (leads : o.LeadsTo o')
    (shallow : o'.IsShallow) : o.IsShallow := by
  intro name given j
  rcases leads name given j with deep | same
  · exact deep
  · rw [same]
    exact shallow name given j

/-- If the second outline is not deep enough either, the first leads to no more than the second. -/
theorem Outline.LeadsTo.back {o o' : Outline} (leads : o.LeadsTo o')
    (still : o.IsShallow → o'.IsShallow) : o'.LeadsTo o := by
  intro name given j
  rcases leads name given j with deep | same
  · exact .inl (still (isShallow_of_collect given deep) name given j)
  · exact .inr same.symm

section Bound

variable {s : Store} (closed : s.Closed)
include closed

/-- If no schema turns out to be deep enough that was not, no reading goes deeper. -/
theorem Outline.leadsTo_of_isShallow {n m : Nat} (deeper : n ≤ m)
    (still : ∀ p < s.size, (readWithin s n (.ref p)).IsShallow →
      (readWithin s m (.ref p)).IsShallow) {v : Value} (held : s.Holds v) (positive : 0 < n) :
    (readWithin s m v).LeadsTo (readWithin s n v) := by
  have leads := leadsTo_readWithin closed (.refl s) (.refl s) deeper held
  cases v with
  | scalar x =>
    obtain ⟨n, rfl⟩ := Nat.exists_eq_add_of_lt positive
    obtain ⟨m, rfl⟩ : ∃ k, m = k + 1 := ⟨m - 1, by omega⟩
    exact .refl _
  | ref p => exact leads.back (still p (Store.holds_ref.mp held))

/-- With as many rounds as places, what is not deep enough stays so. -/
theorem Outline.isShallow_of_le {n m : Nat} (many : s.size < n) (later : n ≤ m) {p : Place}
    (filled : p < s.size) (now : (readWithin s n (.ref p)).IsShallow) :
    (readWithin s m (.ref p)).IsShallow := by
  obtain ⟨n, rfl⟩ : ∃ k, n = k + 1 := ⟨n - 1, by omega⟩
  obtain ⟨m, rfl⟩ : ∃ k, m = k + 1 := ⟨m - 1, by omega⟩
  refine (settled (fun n p => p < s.size ∧ (readWithin s (n + 1) (.ref p)).IsShallow)
    ?_ (fun n p holds => holds.1) ?_ (Nat.le_of_lt_succ many) (Nat.le_of_succ_le_succ later)
    ⟨filled, now⟩).2
  · intro n p ⟨filled, shallow⟩
    exact ⟨filled, (leadsTo_readWithin closed (.refl s) (.refl s) (Nat.le_succ (n + 1))
      (Store.holds_ref.mpr filled)).isShallow shallow⟩
  · intro n still p ⟨filled, shallow⟩
    refine ⟨filled, LeadsTo.isShallow ?_ shallow⟩
    refine leadsTo_readWithin_succ closed (.refl s) (.refl s) (fun v held => ?_)
      (Store.holds_ref.mpr filled)
    exact leadsTo_of_isShallow closed (Nat.le_succ (n + 1))
      (fun p filled shallow => (still p ⟨filled, shallow⟩).2) held (Nat.succ_pos n)

/-- A bound larger than the number of places makes no difference. -/
theorem Outline.leadsTo_read_of_lt {depth : Nat} (enough : s.size < depth) {v : Value}
    (held : s.Holds v) : (readWithin s depth v).LeadsTo (read s v) :=
  leadsTo_of_isShallow closed enough
    (fun _ filled => isShallow_of_le closed (Nat.lt_succ_self _) enough filled) held
    (Nat.succ_pos _)

end Bound

section Extensions

variable {s u : Store} (closed : s.Closed) (extends' : s.Extends u)
include closed extends'

/-- Reading what a store holds leads to the same in a store that has more. -/
theorem Outline.leadsTo_read_of_extends {v : Value} (held : s.Holds v) :
    (read s v).LeadsTo (read u v) :=
  leadsTo_readWithin closed (.refl s) extends' (Nat.succ_le_succ extends'.size_le) held

/-- Reading what a store holds in a store that has more leads to nothing else. -/
theorem Outline.read_leadsTo_of_extends {v : Value} (held : s.Holds v) :
    (read u v).LeadsTo (read s v) := by
  have larger : s.size < u.size + 1 := Nat.lt_succ_of_le extends'.size_le
  exact (leadsTo_readWithin closed extends' (.refl s) (Nat.le_refl (u.size + 1)) held).trans
    (leadsTo_read_of_lt closed larger held)

end Extensions

end SwaggerDoc
