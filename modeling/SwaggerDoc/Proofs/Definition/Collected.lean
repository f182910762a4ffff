import SwaggerDoc.Definition.Collect
import SwaggerDoc.Proofs.Definition.Values
import SwaggerDoc.Proofs.Outcome

/-!
The values that come into collected definitions.

Whatever an outline holds, and whether or not a store was altered before it was read: the definition
that is collected from it has no values but those among the modifiers. The induction follows the
outline, as collecting does.
-/

namespace SwaggerDoc

/-! ## What outlines use -/

section Uses

variable (shared copied : Value → Prop)

/-- What comes in with modifiers is as said. -/
structure Modifiers.Uses (m : Modifiers) : Prop where
  description : shared m.description.value
  sample : copied m.sample
  choices : ∀ choices, m.choices = .ok choices → ∀ c ∈ choices, shared c.inner
  least : shared m.least
  greatest : shared m.greatest

mutual

/-- What comes in with a type is as said. -/
def Tag.Uses : Tag → Prop
  | .nested element => element.Uses
  | _ => True

/-- What comes in with an entry is as said. -/
def Entry.Uses : Entry → Prop
  | .declared tag m => tag.Uses ∧ m.Uses shared copied
  | .bare tag _ => tag.Uses
  | .broken _ => True

/-- What comes in with an outline is as said, the names among it. -/
def Outline.Uses : Outline → Prop
  | .field name entry rest => shared (.scalar name.scalar) ∧ entry.Uses ∧ rest.Uses
  | _ => True

end

end Uses

variable {shared copied : Value → Prop}

theorem Kind.uses_ofScalar {target : Except Fault Text} {v : Value} {kind : Kind}
    (maps : Kind.ofScalar target v = .ok (some kind)) : kind.Uses shared copied := by
  unfold Kind.ofScalar at maps
  split at maps
  · cases maps
  · split at maps
    · cases maps
    · split at maps
      · cases maps; trivial
      · cases maps; trivial
      · cases maps; trivial
      · cases maps; trivial
      · cases maps; trivial
      · cases maps
      · split at maps
        · cases target with
          | error fault => cases maps
          | ok t => cases maps; trivial
        · split at maps
          · cases maps; trivial
          · split at maps
            · obtain ⟨shown, -, failed⟩ := Except.exists_ok_of_bind maps
              cases failed
            · cases maps

theorem Allowable.eq_of_bound? {v w : Value} (bounds : Allowable.bound? v = .ok (some w)) :
    w = v := by
  unfold Allowable.bound? at bounds
  split at bounds
  · split at bounds
    · exact (Option.some.inj (Except.ok.inj bounds)).symm
    · cases bounds
  · split at bounds
    · cases bounds
    · exact (Option.some.inj (Except.ok.inj bounds)).symm
  · cases bounds

theorem Modifiers.Uses.shared_allowable {m : Modifiers} (uses : m.Uses shared copied)
    {a : Allowable} (allows : m.allowable = .ok (some a)) : ∀ v ∈ a.values, shared v := by
  obtain ⟨choices, chosen, allows⟩ := Except.exists_ok_of_bind allows
  obtain ⟨least, lower, allows⟩ := Except.exists_ok_of_bind allows
  obtain ⟨greatest, upper, allows⟩ := Except.exists_ok_of_bind allows
  have allowed := Except.ok.inj allows
  intro v member
  split at allowed
  · obtain rfl := Option.some.inj allowed
    rcases List.mem_append.mp member with bound | bound
    · rw [Option.mem_toList.mp bound] at lower
      exact Allowable.eq_of_bound? lower ▸ uses.least
    · rw [Option.mem_toList.mp bound] at upper
      exact Allowable.eq_of_bound? upper ▸ uses.greatest
  · split at allowed
    · cases allowed
    · obtain rfl := Option.some.inj allowed
      obtain ⟨c, listed, rfl⟩ := List.mem_map.mp member
      exact uses.choices choices chosen c listed

theorem Property.uses_modified {m : Modifiers} {kind : Kind} {p : Property}
    (uses : m.Uses shared copied) (inside : kind.Uses shared copied)
    (modified : Property.modified m kind = .ok p) : p.Uses shared copied := by
  obtain ⟨allowable, allows, modified⟩ := Except.exists_ok_of_bind modified
  obtain rfl := Except.ok.inj modified
  refine ⟨inside, ?_, ?_, ?_⟩
  · intro v described
    split at described
    · exact Option.some.inj described ▸ uses.description
    · cases described
  · intro v sampled
    split at sampled
    · cases sampled
    · exact Option.some.inj sampled ▸ uses.sample
  · rintro a rfl
    exact uses.shared_allowable allows

mutual

theorem Tag.uses_kind {name : DefinitionName} {target : Except Fault Text} {kind : Kind} :
    {tag : Tag} → {j : Journal} → tag.Uses shared copied →
      (tag.kind name target j).1 = .ok (some kind) → kind.Uses shared copied
  | .nested element, j, uses, done => by
    rw [Tag.kind] at done
    obtain ⟨c, j', collected, done⟩ := Report.exists_of_bind done
    cases done
    exact Outline.uses_collect uses collected
  | .list, _, _, done => by
    cases done
    trivial
  | .plain v, _, _, done => Kind.uses_ofScalar done

theorem Entry.uses_property {name inner : DefinitionName} {field : Name} {property : Property}
    {required : Bool} : {entry : Entry} → {j : Journal} → entry.Uses shared copied →
      (entry.property name inner field j).1 = .ok (some (property, required)) →
      property.Uses shared copied
  | .broken _, _, _, done => by cases done
  | .bare tag target, j, _, done => by
    rw [Entry.property] at done
    obtain ⟨found, j', -, done⟩ := Report.exists_of_bind done
    cases found <;> cases done
  | .declared tag m, j, ⟨typed, uses⟩, done => by
    rw [Entry.property] at done
    obtain ⟨found, j', maps, done⟩ := Report.exists_of_bind done
    cases found with
    | none => cases done
    | some kind =>
      have inside := Tag.uses_kind typed (Report.of_blame maps)
      obtain ⟨p, j'', modified, done⟩ := Report.exists_of_bind done
      obtain ⟨reported, j''', -, done⟩ := Report.exists_of_bind done
      have same : p = property := by
        cases reported with
        | none =>
          cases done
          rfl
        | some f =>
          obtain ⟨-, j'''', -, done⟩ := Report.exists_of_bind done
          cases done
          rfl
      exact same ▸ Property.uses_modified uses inside modified

/-- The properties that are collected use what the outline uses. -/
theorem Outline.uses_collect {name : DefinitionName} {c : Collected} :
    {o : Outline} → {j : Journal} → o.Uses shared copied → (o.collect name j).1 = .ok c →
      Property.AllUse shared copied c.properties
  | .done, _, _, done => by
    cases done
    trivial
  | .broken _, _, _, done => by cases done
  | .field field entry rest, j, ⟨named, first, others⟩, done => by
    rw [Outline.collect] at done
    obtain ⟨inner, j', -, done⟩ := Report.exists_of_bind done
    obtain ⟨found, j'', described, done⟩ := Report.exists_of_bind done
    obtain ⟨later, j''', collected, done⟩ := Report.exists_of_bind done
    have rest' := Outline.uses_collect others collected
    cases found with
    | none =>
      cases done
      exact rest'
    | some property =>
      cases done
      exact ⟨named, Entry.uses_property first described, rest'⟩

end

/-- The definition of an outline uses what the outline uses. -/
theorem Outline.uses_define {name : DefinitionName} {o : Outline} {j : Journal} {d : Definition}
    (uses : o.Uses shared copied) (done : (o.define name j).1 = .ok d) :
    d.Uses shared copied := by
  obtain ⟨c, j', collected, done⟩ := Report.exists_of_bind done
  cases done
  exact Outline.uses_collect uses collected

end SwaggerDoc
