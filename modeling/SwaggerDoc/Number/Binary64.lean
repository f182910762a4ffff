import SwaggerDoc.Number.Power

/-!
Numbers with a binary point, held exactly.

A finite number is `significand · 2 ^ exponent` with at most 53 binary digits, as a double holds
it, so that comparing, adding and rounding are integer arithmetic. A not-a-number carries a label:
it equals nothing, but a container that meets the very same one twice still recognises it.
-/

namespace SwaggerDoc

/-- A double. In its only form used here, a finite number has a significand below `2 ^ 53`, an
exponent of at least `-1074`, and a significand of at least `2 ^ 52` unless the exponent is the
least one. -/
inductive Binary64 where
  | nan (label : Nat)
  | infinite (negative : Bool)
  | finite (negative : Bool) (significand : Nat) (exponent : Int)
  deriving DecidableEq, Repr

namespace Binary64

/-- Zero, of either sign. -/
def zero (negative : Bool) : Binary64 := .finite negative 0 (-1074)

/-- `numerator / denominator` to the nearest integer; a half goes to the even neighbour. -/
def roundDiv (numerator denominator : Nat) : Nat :=
  let quotient := numerator / denominator
  let twice := 2 * (numerator % denominator)
  if twice > denominator || (twice == denominator && quotient % 2 == 1) then quotient + 1
  else quotient

/-- The nearest integer to a ratio divided by a power of two. -/
def roundScaled (numerator denominator : Nat) (exponent : Int) : Nat :=
  roundDiv (numerator * twoTo (-exponent).toNat) (denominator * twoTo exponent.toNat)

/-- The double nearest to a ratio; a tie goes to the even significand, and what is too large
becomes infinite. -/
def ofRatio (negative : Bool) (numerator denominator : Nat) : Binary64 :=
  if numerator = 0 || denominator = 0 then zero negative
  else
    let guess : Int := (numerator.log2 : Int) - denominator.log2
    let below := numerator * twoTo (-guess).toNat < denominator * twoTo guess.toNat
    let exponent := max ((if below then guess - 1 else guess) - 52) (-1074)
    let rounded := roundScaled numerator denominator exponent
    let (significand, exponent) :=
      if rounded = twoTo 53 then (twoTo 52, exponent + 1) else (rounded, exponent)
    if exponent > 971 then .infinite negative else .finite negative significand exponent

/-- The double nearest to `significand · 2 ^ exponent`. -/
def ofScaled (negative : Bool) (significand : Nat) (exponent : Int) : Binary64 :=
  ofRatio negative (significand * twoTo exponent.toNat) (twoTo (-exponent).toNat)

/-- The double nearest to `digits · 10 ^ exponent`. Numbers far outside the range are settled by
their size alone. -/
def ofDecimal (negative : Bool) (digits : Nat) (exponent : Int) : Binary64 :=
  if digits = 0 then zero negative
  else
    let size : Int := (Nat.toDigits 10 digits).length + exponent
    if size > 400 then .infinite negative
    else if size < -400 then zero negative
    else ofRatio negative (digits * tenTo exponent.toNat) (tenTo (-exponent).toNat)

/-- The double nearest to an integer, unless the integer is too large for any. -/
def ofInt? (i : Int) : Option Binary64 :=
  match ofRatio (i < 0) i.natAbs 1 with
  | .infinite _ => none
  | number => some number

/-- Whether a number is a not-a-number. -/
def isNan : Binary64 → Bool
  | .nan _ => true
  | _ => false

/-- Whether a number is zero, of either sign. -/
def isZero : Binary64 → Bool
  | .finite _ 0 _ => true
  | _ => false

/-- The integer that a number is, if it is one. -/
def toInt? : Binary64 → Option Int
  | .finite negative significand exponent =>
    let size? :=
      if 0 ≤ exponent then some (significand * twoTo exponent.toNat)
      else if significand % twoTo (-exponent).toNat = 0 then
        some (significand / twoTo (-exponent).toNat)
      else none
    size?.map fun size => if negative then -(size : Int) else size
  | _ => none

/-- Numerical equality: the zeros are equal, and a not-a-number equals nothing. -/
def equal : Binary64 → Binary64 → Bool
  | .nan _, _ => false
  | _, .nan _ => false
  | a, b => (a.isZero && b.isZero) || a == b

/-- The number with its sign turned; a not-a-number stays. -/
def neg : Binary64 → Binary64
  | .nan label => .nan label
  | .infinite negative => .infinite !negative
  | .finite negative significand exponent => .finite (!negative) significand exponent

/-- The double nearest to a sum. Infinities of opposite signs give the not-a-number labelled
zero. -/
def add : Binary64 → Binary64 → Binary64
  | .nan label, _ => .nan label
  | _, .nan label => .nan label
  | .infinite a, .infinite b => if a = b then .infinite a else .nan 0
  | .infinite a, _ => .infinite a
  | _, .infinite b => .infinite b
  | .finite n m e, .finite n' m' e' =>
    let low := min e e'
    let signed (negative : Bool) (size : Nat) : Int := if negative then -(size : Int) else size
    let sum := signed n (m * twoTo (e - low).toNat) + signed n' (m' * twoTo (e' - low).toNat)
    if sum = 0 then zero (n && n') else ofScaled (sum < 0) sum.natAbs low

/-- The double nearest to a product. Zero times infinity gives the not-a-number labelled zero. -/
def mul : Binary64 → Binary64 → Binary64
  | .nan label, _ => .nan label
  | _, .nan label => .nan label
  | .infinite a, .infinite b => .infinite (a != b)
  | .infinite a, .finite n m _ => if m = 0 then .nan 0 else .infinite (a != n)
  | .finite n m _, .infinite a => if m = 0 then .nan 0 else .infinite (a != n)
  | .finite n m e, .finite n' m' e' => ofScaled (n != n') (m * m') (e + e')

end Binary64

end SwaggerDoc
