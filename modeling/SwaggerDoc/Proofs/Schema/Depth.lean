import SwaggerDoc.Proofs.Schema.Validation
import SwaggerDoc.Proofs.Store.Agreeing

/-!
The depth of a check does not matter.

A check that goes deeper comes to the same, unless the first one was too deep already
(`Draft.leadsTo_ofMapping`). Only a mapping or a list at one of the filled places can be too deep, so
a store with as many places as rounds has found out (`Draft.ofMapping_of_le`). Hence what a store
holds is accepted as the same draft in every store that has more (`Draft.field_of_extends`).
-/

namespace SwaggerDoc

/-! ## Checks that go deeper -/

namespace Checked

variable {α β γ : Type}

/-- The second check comes to what the first comes to, unless that was too deep. -/
def LeadsTo (x y : Checked α) : Prop := x = .failed .tooDeep ∨ x = y

theorem LeadsTo.refl (x : Checked α) : x.LeadsTo x := .inr rfl

theorem LeadsTo.of_eq {x y : Checked α} (same : x = y) : x.LeadsTo y := .inr same

theorem LeadsTo.antisymm {x y : Checked α} (left : x.LeadsTo y) (right : y.LeadsTo x) : x = y := by
  rcases left with deep | same
  · rcases right with deep' | same
    · rw [deep, deep']
    · exact same.symm
  · exact same

variable {x x' : Checked α}

theorem LeadsTo.map (leads : x.LeadsTo x') (f : α → β) : (x.map f).LeadsTo (x'.map f) := by
  rcases leads with rfl | rfl
  · exact .inl rfl
  · exact .refl _

theorem LeadsTo.both (leads : x.LeadsTo x') {y y' : Unit → Checked β}
    (later : (y ()).LeadsTo (y' ())) : (x.both y).LeadsTo (x'.both y') := by
  rcases leads with rfl | rfl
  · exact .inl rfl
  · cases x with
    | accepted a => exact later.map _
    | failed fault => exact .refl _
    | refused issues =>
      rcases later with deep | same
      · exact .inl (by simp only [Checked.both, deep])
      · exact .of_eq (by simp only [Checked.both, same])

theorem LeadsTo.seq {f f' : Checked (α → β)} (leads : f.LeadsTo f') (later : x.LeadsTo x') :
    (f <*> x).LeadsTo (f' <*> x') := by
  have parts : (f.both fun _ => x).LeadsTo (f'.both fun _ => x') := leads.both later
  exact parts.map _

theorem LeadsTo.within (leads : x.LeadsTo x') (step : LocationItem) :
    (x.within step).LeadsTo (x'.within step) := by
  rcases leads with rfl | rfl
  · exact .inl rfl
  · exact .refl _

theorem LeadsTo.andThen (leads : x.LeadsTo x') {f f' : α → Checked β}
    (later : ∀ a, (f a).LeadsTo (f' a)) : (x.andThen f).LeadsTo (x'.andThen f') := by
  rcases leads with rfl | rfl
  · exact .inl rfl
  · cases x with
    | accepted a => exact later a
    | _ => exact .refl _

theorem leadsTo_all {check check' : α → Checked β} {items : List α}
    (leads : ∀ a ∈ items, (check a).LeadsTo (check' a)) :
    (all check items).LeadsTo (all check' items) := by
  induction items with
  | nil => exact .refl _
  | cons a rest ih =>
    have later := ih fun b member => leads b (List.mem_cons_of_mem a member)
    exact ((leads a List.mem_cons_self).both later).map _

theorem leadsTo_inOrder {check check' : α → Checked β} {items : List α}
    (leads : ∀ a ∈ items, (check a).LeadsTo (check' a)) :
    (inOrder check items).LeadsTo (inOrder check' items) := by
  induction items with
  | nil => exact .refl _
  | cons a rest ih =>
    have later := ih fun b member => leads b (List.mem_cons_of_mem a member)
    exact (leads a List.mem_cons_self).andThen fun b => later.map _

theorem leadsTo_optional {entries : List (Value × Value)} {name : String} {absent : α}
    {check check' : Value → Checked α} (leads : ∀ e ∈ entries, (check e.2).LeadsTo (check' e.2)) :
    (Check.optional entries name absent check).LeadsTo
      (Check.optional entries name absent check') := by
  unfold Check.optional
  cases found : lookupText? entries (text name) with
  | none => exact .refl _
  | some v =>
    obtain ⟨e, entry, rfl⟩ := Option.map_eq_some_iff.mp found
    exact (leads e (List.mem_of_find?_eq_some entry)).within _

end Checked

namespace Draft

open Checked

section Readers

variable {s t : Store} {values : Value → Prop} (agrees : s.Agrees t values)
  {fresh fresh' : List (Value × Value) → Checked FieldDraft}
include agrees

theorem options_eq {entries : List (Value × Value)} (inside : ∀ e ∈ entries, values e.2) :
    options t entries = options s entries := by
  have choices : Check.optional entries "enum" [] (Check.list t Check.string) =
      Check.optional entries "enum" [] (Check.list s Check.string) :=
    LeadsTo.antisymm
      (leadsTo_optional fun e member => .of_eq (agrees.list_eq _ (inside e member)))
      (leadsTo_optional fun e member => .of_eq (agrees.list_eq _ (inside e member)).symm)
  rw [options, options, choices]

theorem mem_parts_of_entry {v : Value} {entries : List (Value × Value)} (held : values v)
    (map : s.deref? v = some (.map entries)) : ∀ e ∈ entries, values e.1 ∧ values e.2 := by
  intro e member
  have part (w : Value) (side : w = e.1 ∨ w = e.2) : values w :=
    agrees.parts held map w (List.mem_flatMap.mpr ⟨e, member, by simpa using side⟩)
  exact ⟨part _ (.inl rfl), part _ (.inr rfl)⟩

variable (leads : ∀ v, values v → (ofEntry s fresh v).LeadsTo (ofEntry t fresh' v))
include leads

theorem leadsTo_ofFields {v : Value} (held : values v) :
    (ofFields s fresh v).LeadsTo (ofFields t fresh' v) := by
  unfold ofFields
  rw [agrees.deref?_eq held]
  cases cell : s.deref? v with
  | none => exact .refl _
  | some c =>
    cases c with
    | map entries =>
      refine LeadsTo.map (leadsTo_all fun e member => ?_) _
      obtain ⟨key, value⟩ := mem_parts_of_entry agrees held cell e member
      simp only [agrees.key_eq key, agrees.step_eq key]
      exact LeadsTo.both (.refl _) ((leads e.2 value).within _)
    | _ => exact .refl _

theorem leadsTo_ofSchema {entries : List (Value × Value)} (inside : ∀ e ∈ entries, values e.2) :
    (ofSchema s fresh entries).LeadsTo (ofSchema t fresh' entries) :=
  leadsTo_optional fun e member => leadsTo_ofFields agrees leads (inside e member)

theorem leadsTo_ofElement {v : Value} (held : values v) :
    (ofElement s fresh v).LeadsTo (ofElement t fresh' v) := by
  unfold ofElement
  rw [agrees.deref?_eq held]
  cases cell : s.deref? v with
  | none => exact .refl _
  | some c =>
    cases c with
    | map entries =>
      simp only
      split
      · cases given : Check.attributes entries with
        | error fault => exact .refl _
        | ok attributes =>
          obtain rfl := Check.eq_of_attributes given
          have inside (e : Value × Value) (member : e ∈ attributes) : values e.2 :=
            (mem_parts_of_entry agrees held cell e member).2
          exact (leadsTo_ofSchema agrees leads inside).map _
      · exact .refl _
    | _ => exact .refl _

theorem leadsTo_ofTag {v : Value} (held : values v) :
    (ofTag s fresh v).LeadsTo (ofTag t fresh' v) := by
  unfold ofTag
  rw [agrees.deref?_eq held]
  cases cell : s.deref? v with
  | none => exact .refl _
  | some c =>
    cases c with
    | list items =>
      refine LeadsTo.map (leadsTo_inOrder fun e member => ?_) _
      exact leadsTo_ofElement agrees leads (agrees.parts held cell e member)
    | _ => exact .refl _

omit leads in
theorem leadsTo_ofEntry
    (leads : ∀ entries, (∀ e ∈ entries, values e.2) → (fresh entries).LeadsTo (fresh' entries))
    {v : Value} (held : values v) : (ofEntry s fresh v).LeadsTo (ofEntry t fresh' v) := by
  have bare := leads [(.ofText (text "type"), v)] (List.forall_mem_singleton.mpr held)
  unfold ofEntry
  rw [agrees.deref?_eq held]
  cases cell : s.deref? v with
  | none => exact bare
  | some c =>
    cases c with
    | field f => exact .refl _
    | map entries =>
      simp only
      split
      · exact leads entries fun e member => (mem_parts_of_entry agrees held cell e member).2
      · exact bare
    | _ => exact bare

end Readers

section Depth

variable {s t : Store} {values : Value → Prop}

/-- One more round of mappings goes deeper if the fields inside do. -/
theorem leadsTo_ofMapping_succ (agrees : s.Agrees t values) {n m : Nat}
    (leads : ∀ v, values v → (ofEntry s (ofMapping s n) v).LeadsTo (ofEntry t (ofMapping t m) v))
    {entries : List (Value × Value)} (inside : ∀ e ∈ entries, values e.2) :
    (ofMapping s (n + 1) entries).LeadsTo (ofMapping t (m + 1) entries) := by
  have type : (Check.optional entries "type" (.plain .null) (ofTag s (ofMapping s n))).LeadsTo
      (Check.optional entries "type" (.plain .null) (ofTag t (ofMapping t m))) :=
    leadsTo_optional fun e member => leadsTo_ofTag agrees leads (inside e member)
  rw [ofMapping, ofMapping, options_eq agrees inside]
  exact (type.map FieldDraft.fresh).seq (.refl _)

/-- A check with a larger bound goes deeper, in each of two stores that agree. -/
theorem leadsTo_ofMapping (agrees : s.Agrees t values) {n m : Nat} (deeper : n ≤ m)
    {entries : List (Value × Value)} (inside : ∀ e ∈ entries, values e.2) :
    (ofMapping s n entries).LeadsTo (ofMapping t m entries) := by
  induction n generalizing m entries with
  | zero => exact .inl rfl
  | succ n ih =>
    obtain ⟨m, rfl⟩ : ∃ k, m = k + 1 := ⟨m - 1, by omega⟩
    exact leadsTo_ofMapping_succ agrees
      (fun v held => leadsTo_ofEntry agrees (fun _ => ih (Nat.le_of_succ_le_succ deeper)) held)
      inside

/-- A field is too deep only where a mapping or a list lies. -/
theorem exists_deref?_of_deep {n : Nat} {v : Value}
    (deep : ofEntry s (ofMapping s (n + 1)) v = .failed .tooDeep) : ∃ c, s.deref? v = some c := by
  cases cell : s.deref? v with
  | some c => exact ⟨c, rfl⟩
  | none =>
    have bare : ofEntry s (ofMapping s (n + 1)) v =
        .accepted (.fresh (.plain (namedTag v)) ⟨false, none, .null, [], none, none, none, false⟩) := by
      have type : ofTag s (ofMapping s n) v = .accepted (.plain (namedTag v)) := by
        simp only [ofTag, cell]
      have given : lookupText? [(Value.ofText (text "type"), v)] (text "type") = some v := rfl
      simp only [ofEntry, cell, ofMapping, Check.optional, given, type]
      rfl
    rw [bare] at deep
    cases deep

theorem lt_size_of_deep {n : Nat} {p : Place}
    (deep : ofEntry s (ofMapping s (n + 1)) (.ref p) = .failed .tooDeep) : p < s.size := by
  obtain ⟨c, cell⟩ := exists_deref?_of_deep deep
  exact Store.lt_size_of_cell? cell

/-- If no field turns out to be less deep than it was, no check goes deeper. -/
theorem leadsTo_of_deep {n m : Nat} (deeper : n ≤ m)
    (deep : ∀ p, ofEntry s (ofMapping s (n + 1)) (.ref p) = .failed .tooDeep →
      ofEntry s (ofMapping s (m + 1)) (.ref p) = .failed .tooDeep) (v : Value) :
    (ofEntry s (ofMapping s (m + 1)) v).LeadsTo (ofEntry s (ofMapping s (n + 1)) v) := by
  have leads : (ofEntry s (ofMapping s (n + 1)) v).LeadsTo (ofEntry s (ofMapping s (m + 1)) v) :=
    leadsTo_ofEntry s.agrees_self
      (fun _ => leadsTo_ofMapping s.agrees_self (Nat.succ_le_succ deeper)) trivial
  rcases leads with now | same
  · cases v with
    | scalar x =>
      obtain ⟨c, cell⟩ := exists_deref?_of_deep now
      cases cell
    | ref p => exact .inl (deep p now)
  · exact .of_eq same.symm

/-- With as many rounds as places, what is too deep stays so. -/
theorem deep_of_le {n m : Nat} (many : s.size ≤ n) (later : n ≤ m) {p : Place}
    (now : ofEntry s (ofMapping s (n + 1)) (.ref p) = .failed .tooDeep) :
    ofEntry s (ofMapping s (m + 1)) (.ref p) = .failed .tooDeep := by
  refine settled (fun n p => ofEntry s (ofMapping s (n + 1)) (.ref p) = .failed .tooDeep)
    ?_ (fun n p => lt_size_of_deep) ?_ many later now
  · intro n p deep
    have leads : (ofEntry s (ofMapping s (n + 1)) (.ref p)).LeadsTo
        (ofEntry s (ofMapping s (n + 2)) (.ref p)) :=
      leadsTo_ofEntry s.agrees_self
        (fun _ => leadsTo_ofMapping s.agrees_self (Nat.le_succ (n + 1))) trivial
    exact leads.elim id fun same => same.trans deep
  · intro n still p deep
    have back : (ofEntry s (ofMapping s (n + 3)) (.ref p)).LeadsTo
        (ofEntry s (ofMapping s (n + 2)) (.ref p)) :=
      leadsTo_ofEntry s.agrees_self (fun _ => leadsTo_ofMapping_succ s.agrees_self
        fun v _ => leadsTo_of_deep (Nat.le_succ n) still v) trivial
    exact back.elim id fun same => same.trans deep

/-- A bound larger than the number of places makes no difference. -/
theorem ofMapping_of_le {depth : Nat} (enough : s.size + 2 ≤ depth)
    (entries : List (Value × Value)) : ofMapping s depth entries = field s entries := by
  obtain ⟨m, rfl⟩ : ∃ k, depth = k + 2 := ⟨depth - 2, by omega⟩
  have deeper : s.size ≤ m := by omega
  have back : (ofMapping s (m + 2) entries).LeadsTo (ofMapping s (s.size + 2) entries) :=
    leadsTo_ofMapping_succ s.agrees_self
      (fun v _ => leadsTo_of_deep deeper (fun _ => deep_of_le (Nat.le_refl _) deeper) v)
      fun _ _ => trivial
  exact back.antisymm (leadsTo_ofMapping s.agrees_self enough fun _ _ => trivial)

/-- What a store holds is accepted alike in every store that has more. -/
theorem field_of_extends {u : Store} (closed : s.Closed) (extends' : s.Extends u)
    {entries : List (Value × Value)} (held : ∀ e ∈ entries, s.Holds e.2) :
    field u entries = field s entries := by
  have agrees := closed.agrees_of_extends extends'
  have larger : s.size + 2 ≤ u.size + 2 := Nat.add_le_add_right extends'.size_le 2
  have back := leadsTo_ofMapping agrees.symm (Nat.le_refl (u.size + 2)) held
  rw [ofMapping_of_le larger] at back
  exact back.antisymm (leadsTo_ofMapping agrees larger held)

end Depth

end Draft

end SwaggerDoc
