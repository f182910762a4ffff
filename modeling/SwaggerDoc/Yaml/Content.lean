import SwaggerDoc.Number.Literal
import SwaggerDoc.Store.Basic
import SwaggerDoc.Yaml.Cursor
import SwaggerDoc.Yaml.Implicit

/-!
The values of scalars.

A tag says how the characters of a scalar are to be read. A plain scalar has its tag because its
characters fit; a tag that is written out can be at odds with them, and then reading stops.
-/

namespace SwaggerDoc.Yaml.Content

/-- A number's characters without the underscores that set digits apart. -/
def withoutGaps (t : Text) : Text := t.filter (· != 95)

/-- Characters behind a sign, with whether the sign is a minus. There has to be a first character.
-/
def signed (t : Text) : Except Fault (Bool × Text) :=
  match t with
  | [] => .error .noIndex
  | c :: rest => .ok (c == 45, if c = 43 || c = 45 then rest else t)

/-- An integer in a base. -/
def inBase (base : Nat) (t : Text) : Except Fault Int :=
  match Literal.integer? base t with
  | some i => .ok i
  | none => .error .badValue

/-- A whole number: in the base that its beginning announces, in sixtieths, or decimal. -/
def whole (t : Text) : Except Fault Int := do
  let (negative, body) ← signed (withoutGaps t)
  let size ← match body with
    | [] => .error .noIndex
    | [48] => .ok 0
    | 48 :: 98 :: digits => inBase 2 digits
    | 48 :: 120 :: digits => inBase 16 digits
    | 48 :: _ => inBase 8 body
    | _ => do
      let parts ← (Text.split 58 body).mapM (inBase 10)
      pure (parts.foldl (fun n part => n * 60 + part) 0)
  return if negative then -size else size

/-- A part of a number in sixtieths. -/
def sixtieth (t : Text) : Except Fault Binary64 :=
  match Literal.float? t with
  | some f => .ok f
  | none => .error .badValue

/-- The sum of parts of which each counts sixty times as much as the one before. -/
def sumOfSixtieths (sum : Binary64) (weight : Int) : List Binary64 → Except Fault Binary64
  | [] => .ok sum
  | part :: rest =>
    match Binary64.ofInt? weight with
    | none => .error .tooLarge
    | some w => sumOfSixtieths (sum.add (part.mul w)) (weight * 60) rest

/-- A number with a point: infinite, in sixtieths, or decimal. -/
def real (t : Text) : Except Fault Binary64 := do
  let (negative, body) ← signed (Text.lower (withoutGaps t))
  let size ←
    if body = text ".inf" then pure (.infinite false)
    else if body.contains 58 then do
      sumOfSixtieths (.zero false) 1 (← (Text.split 58 body).mapM sixtieth).reverse
    else sixtieth body
  return if negative then size.neg else size

/-- Whether the characters are those of the not-a-number that all documents share. -/
def isSharedNan (t : Text) : Bool :=
  match signed (Text.lower (withoutGaps t)) with
  | .ok (_, body) => body == text ".nan"
  | .error _ => false

/-- A word for a truth value. -/
def truth (t : Text) : Except Fault Bool :=
  let word := Text.lower t
  if ["yes", "true", "on"].any (text · == word) then .ok true
  else if ["no", "false", "off"].any (text · == word) then .ok false
  else .error .noKey

/-- The seconds that a written distance from universal time amounts to. -/
def ahead (zone : Option CodePoint × Text × Text) : Int :=
  let (sign, hours, minutes) := zone
  let seconds : Int := (Text.toNat hours * 60 + Text.toNat minutes) * 60
  if sign = some 45 then -seconds else seconds

/-- The microseconds of a written fraction, of which six digits count. -/
def microseconds (fraction : Text) : Nat :=
  let digits := fraction.take 6
  Text.toNat (digits ++ List.replicate (6 - digits.length) 48)

/-- A day, or a time on a day. A line break at the end does not count. -/
def timestamp (t : Text) : Except Fault Cell :=
  let t := if t.getLast? == some 10 then t.dropLast else t
  match Implicit.stamp? t with
  | none => .error .noAttribute
  | some stamp =>
    let date : Date := ⟨Text.toNat stamp.year, Text.toNat stamp.month, Text.toNat stamp.day⟩
    match stamp.clock with
    | none => if date.valid then .ok (.date date) else .error .badValue
    | some (hour, minute, second) =>
      let time : DateTime :=
        { date
          hour := Text.toNat hour
          minute := Text.toNat minute
          second := Text.toNat second
          microsecond := microseconds stamp.fraction
          ahead := stamp.zone.map ahead }
      if time.valid then .ok (.time time) else .error .badValue

/-- The octets of a scalar in the six-bit alphabet. -/
def octets (t : Text) : Except Problem Octets :=
  if t.any (128 ≤ ·) then .error .malformed
  else match Base64.decode? t with
    | some o => .ok o
    | none => .error .malformed

/-- A result that may be a fault. -/
def ofFault {α : Type} : Except Fault α → Except Problem α
  | .ok a => .ok a
  | .error f => .error (.fault f)

/-- The value of a scalar with a tag. Tags of collections and unknown tags have no scalars. -/
def value (s : Store) (tag : NodeTag) (t : Text) : Except Problem (Value × Store) :=
  match tag with
  | .null => .ok (.null, s)
  | .string => .ok (.ofText t, s)
  | .bool => do return (.scalar (.bool (← ofFault (truth t))), s)
  | .int => do return (.scalar (.int (← ofFault (whole t))), s)
  | .float =>
    if isSharedNan t then .ok (.scalar (.float (.nan 0)), s)
    else do return s.number (← ofFault (real t))
  | .binary => do return (.scalar (.octets (← octets t)), s)
  | .timestamp => do return s.alloc (← ofFault (timestamp t))
  | _ => .error .malformed

end SwaggerDoc.Yaml.Content
