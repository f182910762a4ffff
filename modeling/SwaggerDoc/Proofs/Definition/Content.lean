import SwaggerDoc.Definition.Collect
import SwaggerDoc.Proofs.Schema.Accepted

/-!
Definitions by the content of their schemas.

What an accepted schema is described by, as long as nothing goes wrong: a function of its content
alone, field by field. The other side of it, which fields go wrong and which are reported, is in
`Proofs/Definition/Visits.lean`.
-/

namespace SwaggerDoc

/-- What a type tag maps to. `target` is the name of the definition that a reference is to. -/
def FieldType.kind? (target : Text) : FieldType → Option Kind
  | .string | .mixed | .buffer => some .string
  | .number => some .integer
  | .date => some .date
  | .boolean => some .boolean
  | .objectId | .oid => some (.reference target)
  | .array => some .texts
  | .object => none

namespace Check.Bound

/-- Whether a bound is a number; the not-a-number is none. -/
def isNumber : Bound → Bool
  | .whole _ => true
  | .real f => !f.isNan

/-- Whether a bound is an integer that no double comes near. -/
def isTooLarge : Bound → Bool
  | .whole i => (Binary64.ofInt? i).isNone
  | .real _ => false

/-- A bound as a value if it is a number. -/
def number? (b : Option Bound) : Option Value := (b.filter isNumber).map value

end Check.Bound

namespace Options

/-- The name of the definition that a reference is to. -/
def targetText (o : Options) : Text := o.target.getD []

/-- The lower bound if it is a number. -/
def lower? (o : Options) : Option Value := Check.Bound.number? o.least

/-- The upper bound if it is a number. -/
def upper? (o : Options) : Option Value := Check.Bound.number? o.greatest

/-- The values that the options allow. -/
def allowable (o : Options) : Option Allowable :=
  if o.lower?.isSome || o.upper?.isSome then some (.range o.lower? o.upper?)
  else if o.choices.isEmpty then none
  else some (.list (o.choices.map fun t => .value (.ofText t)))

/-- The description unless it is empty. -/
def describing? (o : Options) : Option Value := (o.description.filter (!·.isEmpty)).map .ofText

/-- The example if there is one. -/
def example? (o : Options) : Option Value := if o.sample = .null then none else some o.sample

/-- The property of a field with the options, whose type maps to the given kind. -/
def property (o : Options) (kind : Kind) : Property :=
  .mk kind o.describing? o.example? o.allowable

end Options

mutual

/-- What the type of an accepted field maps to. -/
def AcceptedTag.kind? (target : Text) : AcceptedTag → Option Kind
  | .nested element => some (.records element.collected.definition)
  | .list => some .texts
  | .plain (.scalar (.fieldType t)) => t.kind? target
  | .plain _ => none

/-- What an accepted schema is described by, and which of the described fields are required. -/
def AcceptedSchema.collected : AcceptedSchema → Collected
  | .done => ⟨[], []⟩
  | .field name tag options rest =>
    if isPrivate name then rest.collected
    else match tag.kind? options.targetText with
      | none => rest.collected
      | some kind => rest.collected.cons (.text name) (options.property kind) options.required

end

/-- The definition of an accepted schema. -/
def AcceptedSchema.definition (t : AcceptedSchema) : Definition := t.collected.definition

/-- Properties are named like fields, in the order of the fields. -/
theorem AcceptedSchema.properties_sublist_names : (t : AcceptedSchema) →
    (t.collected.properties.map Prod.fst).Sublist (t.names.map Name.text)
  | .done => .slnil
  | .field name tag options rest => by
    have later := AcceptedSchema.properties_sublist_names rest
    rw [AcceptedSchema.collected]
    split
    · exact later.cons _
    · split
      · exact later.cons _
      · exact later.cons_cons _

/-! ## The modifiers of options -/

theorem Check.Bound.bound?_value {b : Check.Bound} (fits : b.isTooLarge = false) :
    Allowable.bound? b.value = .ok (if b.isNumber then some b.value else none) := by
  cases b with
  | whole i =>
    have small : (Binary64.ofInt? i).isSome = true := by
      simpa [isTooLarge, Option.isNone_iff_eq_none, ← Option.isSome_iff_ne_none] using fits
    simp [value, Allowable.bound?, isNumber, small]
  | real f => cases h : f.isNan <;> simp [value, Allowable.bound?, isNumber, h]

theorem Check.Bound.bound?_tooLarge {b : Check.Bound} (large : b.isTooLarge = true) :
    Allowable.bound? b.value = .error .tooLarge := by
  cases b with
  | whole i =>
    have none : Binary64.ofInt? i = none := by
      simpa [isTooLarge, Option.isNone_iff_eq_none] using large
    simp [value, Allowable.bound?, none]
  | real f => cases large

/-- Whether one of the bounds is an integer that no double comes near. -/
def Options.isOversized (o : Options) : Bool :=
  o.least.any Check.Bound.isTooLarge || o.greatest.any Check.Bound.isTooLarge

theorem Allowable.bound?_ofBound? (b : Option Check.Bound) :
    Allowable.bound? (.ofBound? b) =
      if b.any Check.Bound.isTooLarge then .error .tooLarge else .ok (Check.Bound.number? b) := by
  cases b with
  | none => rfl
  | some b =>
    cases large : b.isTooLarge with
    | true => simp [Value.ofBound?, Check.Bound.bound?_tooLarge large, large]
    | false =>
      cases number : b.isNumber <;>
        simp [Value.ofBound?, Check.Bound.number?, Check.Bound.bound?_value large, large, number,
          Option.filter]

theorem Options.modifiers_allowable (o : Options) :
    o.modifiers.allowable = if o.isOversized then .error .tooLarge else .ok o.allowable := by
  have least := Allowable.bound?_ofBound? o.least
  have greatest := Allowable.bound?_ofBound? o.greatest
  simp only [Value.ofBound?] at least greatest
  simp only [Modifiers.allowable, Options.modifiers, least, greatest, Options.isOversized]
  by_cases large : o.least.any Check.Bound.isTooLarge = true
  · simp [large, bind, Except.bind]
  by_cases large' : o.greatest.any Check.Bound.isTooLarge = true
  · simp [large, large', bind, Except.bind]
  have choices : (o.choices.map fun t => Choice.value (.ofText t)).isEmpty = o.choices.isEmpty :=
    List.isEmpty_map
  simp [large, large', bind, Except.bind, pure, Except.pure, Options.allowable, Options.lower?,
    Options.upper?, choices]

theorem Options.modifiers_description (o : Options) :
    (if o.modifiers.description.present then some o.modifiers.description.value else none) =
      o.describing? := by
  rcases h : o.description with _ | _ | ⟨c, t⟩ <;>
    simp [Options.modifiers, Attribute.ofText?, Options.describing?, h, Option.filter]

/-- A property gets the modifiers of its options unless a bound is too large. -/
theorem Property.modified_modifiers (o : Options) (kind : Kind) :
    Property.modified o.modifiers kind =
      if o.isOversized then .error .tooLarge else .ok (o.property kind) := by
  rw [Property.modified, Options.modifiers_allowable, Options.modifiers_description]
  cases o.isOversized <;> rfl

end SwaggerDoc
