import SwaggerDoc.Proofs.Chain
import SwaggerDoc.Schema.Draft

/-!
Checks that break off.

A check of a field declaration comes to a draft or to issues, except where it breaks off. There are
two causes, and both lie in the schemas inside the types of fields: the keys of one of them are no
names, or one of them contains itself (`Draft.cause_of_failed`).

A field breaks off at a schema inside its own type, or because a field of that schema does
(`Draft.step_of_failed`). Following the fields inward therefore ends at keys that are no names, or it
goes on for more steps than there are places and comes to a place again.
-/

namespace SwaggerDoc

/-! ## Combinators -/

namespace Checked

variable {α β : Type} {causes : Fault → Prop}

/-- Whatever breaks the check off is one of the causes. -/
def BreaksOffBy (causes : Fault → Prop) (x : Checked α) : Prop :=
  ∀ fault, x = .failed fault → causes fault

theorem breaksOffBy_accepted (a : α) : (accepted a).BreaksOffBy causes := by
  intro fault broken
  cases broken

theorem breaksOffBy_refused (issues : List Issue) :
    (refused issues : Checked α).BreaksOffBy causes := by
  intro fault broken
  cases broken

theorem breaksOffBy_failed {fault : Fault} (cause : causes fault) :
    (failed fault : Checked α).BreaksOffBy causes := by
  intro fault' broken
  cases broken
  exact cause

theorem BreaksOffBy.mono {causes' : Fault → Prop} {x : Checked α} (breaks : x.BreaksOffBy causes)
    (weaker : ∀ fault, causes fault → causes' fault) : x.BreaksOffBy causes' :=
  fun fault broken => weaker fault (breaks fault broken)

theorem BreaksOffBy.map {x : Checked α} (breaks : x.BreaksOffBy causes) (f : α → β) :
    (x.map f).BreaksOffBy causes := by
  cases x with
  | accepted a => exact breaksOffBy_accepted _
  | refused issues => exact breaksOffBy_refused issues
  | failed fault => exact breaksOffBy_failed (breaks fault rfl)

theorem BreaksOffBy.both {x : Checked α} (breaks : x.BreaksOffBy causes) {y : Unit → Checked β}
    (later : (y ()).BreaksOffBy causes) : (x.both y).BreaksOffBy causes := by
  cases x with
  | accepted a => exact later.map _
  | failed fault => exact breaksOffBy_failed (breaks fault rfl)
  | refused issues =>
    unfold Checked.both
    cases second : y () with
    | accepted b => exact breaksOffBy_refused _
    | refused more => exact breaksOffBy_refused _
    | failed fault => exact breaksOffBy_failed (later fault second)

theorem BreaksOffBy.seq {f : Checked (α → β)} {x : Checked α} (breaks : f.BreaksOffBy causes)
    (later : x.BreaksOffBy causes) : (f <*> x).BreaksOffBy causes :=
  (breaks.both (y := fun _ => x) later).map _

theorem BreaksOffBy.within {x : Checked α} (breaks : x.BreaksOffBy causes) (step : LocationItem) :
    (x.within step).BreaksOffBy causes := by
  cases x with
  | refused issues => exact breaksOffBy_refused _
  | accepted a => exact breaksOffBy_accepted a
  | failed fault => exact breaksOffBy_failed (breaks fault rfl)

theorem BreaksOffBy.andThen {x : Checked α} (breaks : x.BreaksOffBy causes) {f : α → Checked β}
    (later : ∀ a, (f a).BreaksOffBy causes) : (x.andThen f).BreaksOffBy causes := by
  cases x with
  | accepted a => exact later a
  | refused issues => exact breaksOffBy_refused issues
  | failed fault => exact breaksOffBy_failed (breaks fault rfl)

theorem breaksOffBy_all {check : α → Checked β} {items : List α}
    (breaks : ∀ a ∈ items, (check a).BreaksOffBy causes) :
    (all check items).BreaksOffBy causes := by
  induction items with
  | nil => exact breaksOffBy_accepted _
  | cons a rest ih =>
    have later := ih fun b member => breaks b (List.mem_cons_of_mem a member)
    exact ((breaks a List.mem_cons_self).both later).map _

theorem breaksOffBy_inOrder {check : α → Checked β} {items : List α}
    (breaks : ∀ a ∈ items, (check a).BreaksOffBy causes) :
    (inOrder check items).BreaksOffBy causes := by
  induction items with
  | nil => exact breaksOffBy_accepted _
  | cons a rest ih =>
    have later := ih fun b member => breaks b (List.mem_cons_of_mem a member)
    exact (breaks a List.mem_cons_self).andThen fun b => later.map _

theorem breaksOffBy_optional {entries : List (Value × Value)} {name : String} {absent : α}
    {check : Value → Checked α}
    (breaks : ∀ v, lookupText? entries (text name) = some v → (check v).BreaksOffBy causes) :
    (Check.optional entries name absent check).BreaksOffBy causes := by
  unfold Check.optional
  split
  · exact breaksOffBy_accepted absent
  · next v found => exact (breaks v found).within _

theorem breaksOffBy_required {entries : List (Value × Value)} {name : String}
    {check : Value → Checked α} (breaks : ∀ v, (check v).BreaksOffBy causes) :
    (Check.required entries name check).BreaksOffBy causes := by
  unfold Check.required
  split
  · exact breaksOffBy_refused _
  · exact (breaks _).within _

end Checked

/-! ## Single values never break a check off -/

namespace Check

open Checked

variable {causes : Fault → Prop}

theorem breaksOffBy_string (v : Value) : (string v).BreaksOffBy causes := by
  unfold string
  split
  · split
    · exact breaksOffBy_accepted _
    · exact breaksOffBy_refused _
    · exact breaksOffBy_refused _
  · exact breaksOffBy_refused _

theorem breaksOffBy_string? (v : Value) : (string? v).BreaksOffBy causes := by
  unfold string?
  split
  · exact breaksOffBy_accepted _
  · exact (breaksOffBy_string v).map _

theorem breaksOffBy_boolOfInt (i : Int) : (boolOfInt i).BreaksOffBy causes := by
  unfold boolOfInt
  split
  · exact breaksOffBy_refused _
  · split
    · exact breaksOffBy_accepted _
    · split
      · exact breaksOffBy_accepted _
      · exact breaksOffBy_refused _

theorem breaksOffBy_bool (v : Value) : (bool v).BreaksOffBy causes := by
  unfold bool
  split
  · exact breaksOffBy_accepted _
  · exact breaksOffBy_boolOfInt _
  · split
    · split
      · exact breaksOffBy_refused _
      · exact breaksOffBy_boolOfInt _
    · exact breaksOffBy_refused _
  · split
    · split
      · exact breaksOffBy_accepted _
      · exact breaksOffBy_refused _
    · exact breaksOffBy_refused _
    · exact breaksOffBy_refused _
  · exact breaksOffBy_refused _

theorem breaksOffBy_bound (v : Value) : (bound v).BreaksOffBy causes := by
  unfold bound
  split
  · exact breaksOffBy_accepted _
  · exact breaksOffBy_accepted _
  · exact breaksOffBy_accepted _
  · split
    · split
      · exact breaksOffBy_accepted _
      · split
        · exact breaksOffBy_accepted _
        · exact breaksOffBy_refused _
    · exact breaksOffBy_refused _
    · exact breaksOffBy_refused _
    · exact breaksOffBy_refused _
  · exact breaksOffBy_refused _

theorem breaksOffBy_bound? (v : Value) : (bound? v).BreaksOffBy causes := by
  unfold bound?
  split
  · exact breaksOffBy_accepted _
  · exact (breaksOffBy_bound v).map _

theorem breaksOffBy_list {α : Type} {s : Store} {check : Value → Checked α}
    (breaks : ∀ v, (check v).BreaksOffBy causes) (v : Value) :
    (list s check v).BreaksOffBy causes := by
  unfold list
  split
  · exact breaksOffBy_refused _
  · exact breaksOffBy_all fun e _ => (breaks e.1).within _

theorem breaksOffBy_key (s : Store) (k : Value) : (key s k).BreaksOffBy causes :=
  ((breaksOffBy_string k).within _).within _

end Check

/-! ## Fields inside the types of fields -/

namespace Store

variable {s : Store}

/-- The type that a value gives when it declares a field, unless it is a declaration already. -/
def typeGiven? (s : Store) (v : Value) : Option Value :=
  match s.deref? v with
  | some (.field _) => none
  | some (.map entries) => some ((lookupText? entries (text "type")).getD v)
  | _ => some v

/-- The type that the value gives has an element that is taken for a schema with the attributes. -/
def GivesSchema (s : Store) (v : Value) (attributes : List (Value × Value)) : Prop :=
  ∃ tag items element, s.typeGiven? v = some tag ∧ s.deref? tag = some (.list items) ∧
    element ∈ items ∧ s.deref? element = some (.map attributes) ∧
    (lookupText? attributes (text "fields")).isSome

/-- The second value stands behind a key in a schema inside the type that the first one gives. -/
def GivesField (s : Store) (v w : Value) : Prop :=
  ∃ attributes fields entries key, s.GivesSchema v attributes ∧
    lookupText? attributes (text "fields") = some fields ∧
    s.deref? fields = some (.map entries) ∧ (key, w) ∈ entries

/-- The type that the value gives holds a schema, but a key there is no name. -/
def GivesUnnamed (s : Store) (v : Value) : Prop :=
  ∃ attributes, s.GivesSchema v attributes ∧ ∃ e ∈ attributes, e.1.asText? = none

/-- What gives a field lies at a place. -/
theorem GivesField.lt_size {v w : Value} (gives : s.GivesField v w) :
    ∃ p < s.size, v = .ref p := by
  obtain ⟨-, -, -, -, ⟨tag, items, -, given, list, -⟩, -⟩ := gives
  cases v with
  | scalar x =>
    obtain rfl : Value.scalar x = tag := Option.some.inj given
    cases list
  | ref p =>
    refine ⟨p, ?_, rfl⟩
    cases cell : s.cell? p with
    | some c => exact lt_size_of_cell? cell
    | none =>
      simp only [typeGiven?, deref?, cell, Option.some.injEq] at given
      subst given
      simp only [deref?, cell] at list
      cases list

end Store

namespace Draft

open Checked

variable {s : Store} {causes : Fault → Prop}

theorem breaksOffBy_options (entries : List (Value × Value)) :
    (options s entries).BreaksOffBy causes := by
  have bool : ∀ name, (Check.optional entries name false Check.bool).BreaksOffBy causes :=
    fun _ => breaksOffBy_optional fun v _ => Check.breaksOffBy_bool v
  have string : ∀ name, (Check.optional entries name none Check.string?).BreaksOffBy causes :=
    fun _ => breaksOffBy_optional fun v _ => Check.breaksOffBy_string? v
  have bound : ∀ name, (Check.optional entries name none Check.bound?).BreaksOffBy causes :=
    fun _ => breaksOffBy_optional fun v _ => Check.breaksOffBy_bound? v
  have sample : (Check.optional entries "example" .null .accepted).BreaksOffBy causes :=
    breaksOffBy_optional fun v _ => breaksOffBy_accepted v
  have choices : (Check.optional entries "enum" [] (Check.list s Check.string)).BreaksOffBy causes :=
    breaksOffBy_optional fun v _ => Check.breaksOffBy_list Check.breaksOffBy_string v
  exact (((((((bool "required").map _).seq (string "description")).seq sample).seq choices).seq
    (bound "min")).seq (bound "max")).seq (string "ref") |>.seq (bool "readonly")

section Step

variable {fresh : List (Value × Value) → Checked FieldDraft}

theorem breaksOffBy_ofFields {v : Value}
    (inside : ∀ entries key w, s.deref? v = some (.map entries) → (key, w) ∈ entries →
      (ofEntry s fresh w).BreaksOffBy causes) :
    (ofFields s fresh v).BreaksOffBy causes := by
  unfold ofFields
  split
  · next entries map =>
    refine (breaksOffBy_all fun e member => ?_).map _
    exact (Check.breaksOffBy_key s e.1).both ((inside entries e.1 e.2 map member).within _)
  · exact breaksOffBy_refused _

/-- An element breaks off at its keys or at a field. -/
theorem breaksOffBy_ofElement {v : Value}
    (unnamed : ∀ attributes, s.deref? v = some (.map attributes) →
      (lookupText? attributes (text "fields")).isSome →
      (∃ e ∈ attributes, e.1.asText? = none) → causes .wrongKind)
    (inside : ∀ attributes fields entries key w, s.deref? v = some (.map attributes) →
      lookupText? attributes (text "fields") = some fields →
      s.deref? fields = some (.map entries) → (key, w) ∈ entries →
      (ofEntry s fresh w).BreaksOffBy causes) :
    (ofElement s fresh v).BreaksOffBy causes := by
  unfold ofElement
  split
  · next attributes map =>
    split
    · next given =>
      unfold Check.attributes
      by_cases named : attributes.all fun e => e.1.asText?.isSome
      · rw [if_pos named]
        refine (breaksOffBy_optional fun fields found => ?_).map _
        exact breaksOffBy_ofFields fun entries key w =>
          inside attributes fields entries key w map found
      · rw [if_neg named]
        refine breaksOffBy_failed (unnamed attributes map given ?_)
        simpa [List.all_eq_true, Option.isSome_iff_ne_none] using named
    · exact breaksOffBy_accepted _
  · exact breaksOffBy_accepted _

theorem breaksOffBy_ofTag {v : Value}
    (elements : ∀ items, s.deref? v = some (.list items) → ∀ e ∈ items,
      (ofElement s fresh e).BreaksOffBy causes) :
    (ofTag s fresh v).BreaksOffBy causes := by
  unfold ofTag
  split
  · next items list => exact (breaksOffBy_inOrder (elements items list)).map _
  · exact breaksOffBy_accepted _

end Step

/-- A field breaks off at the keys of a schema in its type, or because a field in there does. -/
theorem step_of_failed {n : Nat} {v : Value} {fault : Fault}
    (failed : ofEntry s (ofMapping s (n + 1)) v = .failed fault) :
    (fault = .wrongKind ∧ s.GivesUnnamed v) ∨
      ∃ w, s.GivesField v w ∧ ofEntry s (ofMapping s n) w = .failed fault := by
  have mapping {tag : Value} (given : s.typeGiven? v = some tag) {entries : List (Value × Value)}
      (found : ∀ t, lookupText? entries (text "type") = some t → t = tag) :
      (ofMapping s (n + 1) entries).BreaksOffBy fun fault =>
        (fault = .wrongKind ∧ s.GivesUnnamed v) ∨
          ∃ w, s.GivesField v w ∧ ofEntry s (ofMapping s n) w = .failed fault := by
    refine ((breaksOffBy_optional fun t typed => ?_).map _).seq (breaksOffBy_options entries)
    obtain rfl := found t typed
    refine breaksOffBy_ofTag fun items list e member => breaksOffBy_ofElement ?_ ?_
    · intro attributes map taken unnamed
      exact .inl ⟨rfl, attributes, ⟨t, items, e, given, list, member, map, taken⟩, unnamed⟩
    · intro attributes fields entries' key w map declared fieldsMap inside fault' broken
      have taken : s.GivesSchema v attributes :=
        ⟨t, items, e, given, list, member, map, Option.isSome_of_eq_some declared⟩
      exact .inr ⟨w, ⟨attributes, fields, entries', key, taken, declared, fieldsMap, inside⟩, broken⟩
  have bare (t : Value)
      (typed : lookupText? [(Value.ofText (text "type"), v)] (text "type") = some t) : t = v :=
    (Option.some.inj typed).symm
  unfold ofEntry at failed
  split at failed
  · cases failed
  · next entries map =>
    cases typed : lookupText? entries (text "type") with
    | some tag =>
      have given : s.typeGiven? v = some tag := by
        simp only [Store.typeGiven?, map, typed, Option.getD_some]
      rw [typed] at failed
      exact mapping given (fun t same => Option.some.inj (same.symm.trans typed)) fault failed
    | none =>
      have given : s.typeGiven? v = some v := by
        simp only [Store.typeGiven?, map, typed, Option.getD_none]
      rw [typed] at failed
      exact mapping given bare fault failed
  · next other noMap =>
    have given : s.typeGiven? v = some v := by
      unfold Store.typeGiven?
      split
      · next f field => exact absurd field (other f)
      · next entries map => exact absurd map (noMap entries)
      · rfl
    exact mapping given bare fault failed

/-- Without another round, a field is too deep. -/
theorem tooDeep_of_failed {v : Value} {fault : Fault}
    (failed : ofEntry s (ofMapping s 0) v = .failed fault) : fault = .tooDeep := by
  unfold ofEntry at failed
  split at failed
  · cases failed
  · exact (Checked.failed.inj failed).symm
  · exact (Checked.failed.inj failed).symm

end Draft

/-! ## The causes -/

/-- Why the check of the field that a value declares breaks off: following the fields inward comes
to keys that are no names, or to a field that lies inside itself. -/
inductive Store.BreaksOff (s : Store) (v : Value) : Fault → Prop where
  | unnamed {w : Value} (inside : Relation.ReflTransGen s.GivesField v w)
      (keys : s.GivesUnnamed w) :
    BreaksOff s v .wrongKind
  | endless {w : Value} (inside : Relation.ReflTransGen s.GivesField v w)
    (again : Relation.TransGen s.GivesField w w) : BreaksOff s v .tooDeep

theorem Store.BreaksOff.of_givesField {s : Store} {v w : Value} {fault : Fault}
    (gives : s.GivesField v w) (breaks : s.BreaksOff w fault) : s.BreaksOff v fault := by
  cases breaks with
  | unnamed inside keys => exact .unnamed (.head gives inside) keys
  | endless inside again => exact .endless (.head gives inside) again

namespace Draft

variable {s : Store}

/-- A field that is too deep leads inward for as many steps as there are rounds. -/
theorem climbs_of_tooDeep {n : Nat} {v : Value}
    (deep : ofEntry s (ofMapping s n) v = .failed .tooDeep) : Climbs s.GivesField n v := by
  induction n generalizing v with
  | zero => exact trivial
  | succ n ih =>
    rcases step_of_failed deep with ⟨other, -⟩ | ⟨w, gives, later⟩
    · cases other
    · exact ⟨w, gives, ih later⟩

/-- A field that is too deep leads to one that lies inside itself. -/
theorem endless_of_tooDeep {n : Nat} (enough : s.size < n) {v : Value}
    (deep : ofEntry s (ofMapping s n) v = .failed .tooDeep) : s.BreaksOff v .tooDeep := by
  have steps : ∀ v w, s.GivesField v w → v ∈ (List.range s.size).map .ref := by
    intro v w gives
    obtain ⟨p, place, rfl⟩ := gives.lt_size
    exact List.mem_map_of_mem (List.mem_range.mpr place)
  obtain ⟨w, inside, again⟩ := (climbs_of_tooDeep deep).exists_cycle steps
    (by rwa [List.length_map, List.length_range])
  exact .endless inside again

/-- Whatever breaks a field off has a cause in the fields inside. -/
theorem cause_of_failed {n : Nat} (enough : s.size < n) {v : Value} {fault : Fault}
    (failed : ofEntry s (ofMapping s n) v = .failed fault) : s.BreaksOff v fault := by
  have either {m : Nat} {w : Value} (failed : ofEntry s (ofMapping s m) w = .failed fault) :
      fault = .tooDeep ∨ s.BreaksOff w fault := by
    induction m generalizing w with
    | zero => exact .inl (tooDeep_of_failed failed)
    | succ m ih =>
      rcases step_of_failed failed with ⟨rfl, keys⟩ | ⟨x, gives, later⟩
      · exact .inr (.unnamed .refl keys)
      · exact (ih later).imp id (.of_givesField gives)
  rcases either failed with rfl | breaks
  · exact endless_of_tooDeep enough failed
  · exact breaks

end Draft

end SwaggerDoc
