import SwaggerDoc.Text.Basic
import SwaggerDoc.Number.Binary64

/-!
Doubles as decimal texts: the fewest digits that read back.

Around every double lies an interval of numbers that round to it. For one digit, two digits and so
on, the two neighbours of the double among the decimals of that many digits are tried; the first of
them inside the interval is written, the nearer one if both are.
-/

namespace SwaggerDoc

/-- The number `digits · 10 ^ exponent`. -/
structure Decimal where
  digits : Nat
  exponent : Int
  deriving DecidableEq, Repr

namespace Decimal

/-- The least power of ten above a positive ratio, as an exponent. The binary sizes of the two
parts put it within a few places. -/
def magnitude (numerator denominator : Nat) : Int :=
  let guess := ((numerator.log2 : Int) - denominator.log2) * 30103 / 100000
  let above (k : Int) : Bool :=
    numerator * tenTo (-k).toNat < denominator * tenTo k.toNat
  (([guess - 1, guess, guess + 1, guess + 2].find? above).getD (guess + 3))

/-- The decimal of `count` digits that stands for `significand · 2 ^ exponent`, if one of the two
neighbours rounds back to it. All bounds are counted in quarters of the last binary place. -/
def ofCount? (significand : Nat) (exponent : Int) (point : Int) (count : Nat) :
    Option Decimal :=
  let unit := exponent - 2
  let place := point - count
  -- A quarter of the last binary place over the last decimal place, as a ratio.
  let num := twoTo unit.toNat * tenTo (-place).toNat
  let den := twoTo (-unit).toNat * tenTo place.toNat
  let value := 4 * significand * num
  let low := (4 * significand - if significand = twoTo 52 && exponent > -1074 then 1 else 2) * num
  let high := (4 * significand + 2) * num
  let inside (digits : Nat) : Bool :=
    if significand % 2 = 0 then low ≤ digits * den && digits * den ≤ high
    else low < digits * den && digits * den < high
  let below := value / den
  let belowInside := below != 0 && inside below
  let aboveInside := inside (below + 1)
  if belowInside && aboveInside then
    let down := value - below * den
    let up := (below + 1) * den - value
    if down < up || (down == up && below % 2 == 0) then some ⟨below, place⟩
    else some ⟨below + 1, place⟩
  else if belowInside then some ⟨below, place⟩
  else if aboveInside then some ⟨below + 1, place⟩
  else none

/-- The shortest decimal that rounds to a positive double. Seventeen digits always do. -/
def shortest (significand : Nat) (exponent : Int) : Decimal :=
  let point := magnitude (significand * twoTo exponent.toNat) (twoTo (-exponent).toNat)
  (((List.range 17).findSome? fun n => ofCount? significand exponent point (n + 1))).getD ⟨0, 0⟩

end Decimal

/-- How doubles are spelled: the words for the numbers that have no digits, and whether the part
before an exponent always shows its point. -/
structure NumberLayout where
  nan : Text
  infinity : Text
  pointBeforeExponent : Bool

namespace NumberLayout

/-- Digits with a point after the first; `forced` writes the point even where nothing follows. -/
def leadingDigit (forced : Bool) (digits : Text) : Text :=
  match digits with
  | [] => []
  | [d] => if forced then [d, 46, 48] else [d]
  | d :: rest => d :: 46 :: rest

/-- A decimal in place notation from `10 ^ -4` up to below `10 ^ 16`, with at least one digit after
the point, and otherwise with an exponent of a sign and at least two digits. -/
def decimal (layout : NumberLayout) (d : Decimal) : Text :=
  let all := Text.ofNat d.digits
  let digits := Text.trimEnd (· == 48) all
  let point := (all.length : Int) + d.exponent
  if -4 < point && point ≤ 16 then
    if point ≤ 0 then
      text "0." ++ List.replicate (-point).toNat 48 ++ digits
    else
      let whole := digits.take point.toNat
      let fraction := digits.drop point.toNat
      whole ++ List.replicate (point.toNat - whole.length) 48 ++ [46]
        ++ (if fraction.isEmpty then [48] else fraction)
  else
    leadingDigit layout.pointBeforeExponent digits ++ [101, if point - 1 < 0 then 45 else 43]
      ++ Text.padded 2 (point - 1).natAbs

/-- The text of a double. -/
def number (layout : NumberLayout) : Binary64 → Text
  | .nan _ => layout.nan
  | .infinite negative => (if negative then [45] else []) ++ layout.infinity
  | .finite negative significand exponent =>
    (if negative then [45] else [])
      ++ if significand = 0 then text "0.0"
        else layout.decimal (Decimal.shortest significand exponent)

end NumberLayout

end SwaggerDoc
