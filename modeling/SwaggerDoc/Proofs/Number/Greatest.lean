import SwaggerDoc.Number.Binary64
import Mathlib.Tactic.Ring

/-!
The integers that are too large for a double.

The greatest double is `(2 ^ 53 - 1) · 2 ^ 971`. An integer rounds to it as long as it is nearer to
it than to `2 ^ 1024`; from the middle between the two onward, which is `2 ^ 1024 - 2 ^ 970`, there
is no double near it.
-/

namespace SwaggerDoc

theorem twoTo_add (a b : Nat) : twoTo (a + b) = twoTo a * twoTo b := Nat.pow_add 2 a b

theorem twoTo_succ (a : Nat) : twoTo (a + 1) = 2 * twoTo a := by
  rw [twoTo_add, Nat.mul_comm]
  rfl

theorem log2_lt_iff_lt_twoTo {n e : Nat} (nonzero : n ≠ 0) : n.log2 < e ↔ n < twoTo e :=
  Nat.log2_lt nonzero

namespace Binary64

/-- The least size of an integer that is too large for any double. -/
def leastTooLarge : Nat := twoTo 1024 - twoTo 970

/-- A quotient is rounded up to an even number from the middle of the last step onward. -/
theorem roundDiv_eq_even_iff {n unit half even : Nat} (doubled : even = 2 * half)
    (positive : 0 < unit) (below : n < even * unit) :
    roundDiv n unit = even ↔ 2 * (even * unit) ≤ 2 * n + unit := by
  have parts := Nat.div_add_mod n unit
  have rest := Nat.mod_lt n positive
  have small : n / unit < even := (Nat.div_lt_iff_lt_mul positive).mpr below
  rw [roundDiv]
  generalize n / unit = q at *
  generalize n % unit = m at *
  have last (reached : q + 1 = even) : 2 * (even * unit) = 2 * (unit * q) + 2 * unit := by
    rw [← reached]
    ring
  have up_iff : (decide (2 * m > unit) || 2 * m == unit && q % 2 == 1) = true ↔
      unit < 2 * m ∨ 2 * m = unit ∧ q % 2 = 1 := by
    simp
  constructor
  · intro rounded
    split at rounded
    · next up =>
      have middle := up_iff.mp up
      have := last rounded
      omega
    · omega
  · intro middle
    have reached : q + 1 = even := by
      by_contra different
      have room : q + 2 ≤ even := by omega
      have bound := Nat.mul_le_mul_right unit room
      have whole : (q + 2) * unit = unit * q + 2 * unit := by ring
      omega
    have := last reached
    rw [if_pos (up_iff.mpr (by omega))]
    exact reached

theorem roundScaled_one {n e : Nat} : roundScaled n 1 e = roundDiv n (twoTo e) := by
  have none : (-(e : Int)).toNat = 0 := by omega
  rw [roundScaled, none, Int.toNat_natCast, Nat.one_mul]
  exact congrArg (roundDiv · _) (Nat.mul_one n)

/-- The double near an integer has the exponent of its first binary digit, less 52, unless it is
rounded up to one binary digit more. -/
theorem ofRatio_one_eq_infinite_iff {negative : Bool} {n : Nat} (nonzero : n ≠ 0) :
    (∃ sign, ofRatio negative n 1 = .infinite sign) ↔
      1023 < n.log2 ∨ 1023 = n.log2 ∧ roundDiv n (twoTo 971) = twoTo 53 := by
  have reached : ¬ n < twoTo n.log2 := Nat.not_lt.mpr (Nat.log2_self_le nonzero)
  have first : Nat.log2 1 = 0 := rfl
  have whole : n * twoTo (-((n.log2 : Int) - (0 : Nat))).toNat = n := by
    have none : (-((n.log2 : Int) - (0 : Nat))).toNat = 0 := by omega
    rw [none]
    exact Nat.mul_one n
  have scale : 1 * twoTo ((n.log2 : Int) - (0 : Nat)).toNat = twoTo n.log2 := by
    have same : ((n.log2 : Int) - (0 : Nat)).toNat = n.log2 := by omega
    rw [same, Nat.one_mul]
  have exponent : max ((n.log2 : Int) - (0 : Nat) - 52) (-1074) = (n.log2 : Int) - 52 := by omega
  have one : (1 : Nat) ≠ 0 := by decide
  simp only [ofRatio, nonzero, one, decide_false, Bool.or_self, Bool.false_eq_true, if_false,
    first, whole, scale, reached, exponent]
  have rounded (last : n.log2 = 1023) :
      roundScaled n 1 ((n.log2 : Int) - 52) = roundDiv n (twoTo 971) := by
    have same : (n.log2 : Int) - 52 = (971 : Nat) := by omega
    rw [same, roundScaled_one]
  split
  · next up =>
    split
    · next large =>
      simp only [Binary64.infinite.injEq, exists_eq', true_iff]
      rcases Nat.lt_or_ge 1023 n.log2 with above | below
      · exact .inl above
      · have last : n.log2 = 1023 := by omega
        exact .inr ⟨last.symm, rounded last ▸ up⟩
    · next small =>
      simp only [reduceCtorEq, exists_false, false_iff]
      omega
  · next down =>
    split
    · next large =>
      simp only [Binary64.infinite.injEq, exists_eq', true_iff]
      omega
    · next small =>
      simp only [reduceCtorEq, exists_false, false_iff]
      rintro (above | ⟨last, up⟩)
      · omega
      · exact down (rounded last.symm ▸ up)

/-- An integer has no double near it from the middle between the greatest double and the next power
of two onward. -/
theorem ofInt?_eq_none_iff {i : Int} : ofInt? i = none ↔ leastTooLarge ≤ i.natAbs := by
  have infinite : ofInt? i = none ↔ ∃ sign, ofRatio (i < 0) i.natAbs 1 = .infinite sign := by
    rw [ofInt?]
    split <;> simp_all
  have top : twoTo 1024 = twoTo 53 * twoTo 971 := twoTo_add 53 971
  have rounds (below : i.natAbs < twoTo 1024) : roundDiv i.natAbs (twoTo 971) = twoTo 53 ↔
      2 * twoTo 1024 ≤ 2 * i.natAbs + twoTo 971 := by
    rw [top] at below ⊢
    exact roundDiv_eq_even_iff (twoTo_succ 52) (twoTo_pos 971) below
  have doubled : twoTo 1024 = 2 * twoTo 1023 := twoTo_succ 1023
  have halved : twoTo 971 = 2 * twoTo 970 := twoTo_succ 970
  have smaller : twoTo 970 ≤ twoTo 1023 := by
    have split : twoTo 1023 = twoTo 53 * twoTo 970 := twoTo_add 53 970
    rw [split]
    exact Nat.le_mul_of_pos_left _ (twoTo_pos 53)
  have positive := twoTo_pos 1023
  rw [infinite, leastTooLarge]
  by_cases zero : i.natAbs = 0
  · have finite : ¬ ∃ sign, ofRatio (i < 0) i.natAbs 1 = .infinite sign := by
      simp [ofRatio, zero, Binary64.zero]
    generalize twoTo 1024 = a at *
    generalize twoTo 1023 = b at *
    generalize twoTo 970 = d at *
    exact iff_of_false finite (by omega)
  · rw [ofRatio_one_eq_infinite_iff zero]
    have below_top := log2_lt_iff_lt_twoTo (e := 1024) zero
    have below_half := log2_lt_iff_lt_twoTo (e := 1023) zero
    -- the powers are kept as unknowns, so that nothing computes them
    generalize roundDiv i.natAbs (twoTo 971) = rounded at *
    generalize twoTo 1024 = a at *
    generalize twoTo 1023 = b at *
    generalize twoTo 971 = c at *
    generalize twoTo 970 = d at *
    constructor
    · rintro (above | ⟨last, up⟩)
      · omega
      · have := (rounds (below_top.mp (by omega))).mp up
        omega
    · intro large
      rcases Nat.lt_or_ge 1023 i.natAbs.log2 with above | not_above
      · exact .inl above
      · have last : 1023 = i.natAbs.log2 := by omega
        exact .inr ⟨last, (rounds (below_top.mp (by omega))).mpr (by omega)⟩

end Binary64

end SwaggerDoc
