import SwaggerDoc.Store.Equality

/-!
Keys that are texts.

A text is one key with whatever passes for it, and with nothing else.
-/

namespace SwaggerDoc

theorem Scalar.equal_string (t : Text) (x : Scalar) :
    (Scalar.string t).equal x = (x.asText? == some t) := by
  have turned : (some t == x.asText?) = (x.asText? == some t) := Bool.beq_comm
  cases x with
  | null | octets _ | float _ => rfl
  | bool _ | int _ | string _ | fieldType _ | method _ => exact turned

theorem Store.sameKey_ofText (s : Store) (t : Text) (key : Value) :
    s.sameKey (.ofText t) key = (key.asText? == some t) := by
  cases key with
  | ref p => rfl
  | scalar x =>
    have equal : s.equal (.ofText t) (.scalar x) = .ok (x.asText? == some t) :=
      congrArg Except.ok (Scalar.equal_string t x)
    rw [Store.sameKey, equal]
    by_cases same : Value.ofText t = .scalar x
    · obtain rfl := Value.scalar.inj same
      simp [Value.asText?, Scalar.asText?]
    · simp [Value.asText?, beq_eq_false_iff_ne.mpr same]

end SwaggerDoc
