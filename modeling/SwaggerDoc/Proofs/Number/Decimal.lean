import SwaggerDoc.Number.Literal
import SwaggerDoc.Number.Power

/-!
Whole numbers in decimal digits.

A number is written in digits without a leading zero, and the digits are read as the number.
-/

namespace SwaggerDoc

namespace Text

variable {n c : Nat}

theorem isDigit_iff : isDigit c = true ↔ 48 ≤ c ∧ c ≤ 57 := by simp [isDigit]

theorem isDigit_of_mem_ofNat (member : c ∈ ofNat n) : isDigit c = true := by
  obtain ⟨d, listed, rfl⟩ := List.mem_map.mp member
  have digit := Nat.isDigit_of_mem_toDigits (by decide) (by decide) listed
  simp only [Char.isDigit, Bool.and_eq_true, decide_eq_true_eq] at digit
  exact isDigit_iff.mpr digit

theorem ofNat_of_lt_ten (small : n < 10) : ofNat n = [48 + n] := by
  rw [ofNat, Nat.toDigits_of_lt_base small]
  exact congrArg ([·]) (Nat.toNat_digitChar_of_lt_ten small)

theorem ofNat_of_ten_le (large : 10 ≤ n) : ofNat n = ofNat (n / 10) ++ [48 + n % 10] := by
  have last := Nat.toNat_digitChar_of_lt_ten (Nat.mod_lt n (by decide : 0 < 10))
  rw [ofNat, Nat.toDigits_of_base_le (by decide) large, List.map_append]
  simp [ofNat, last]

/-- Only zero is written with a zero in front. -/
theorem exists_ofNat_of_pos (positive : 0 < n) :
    ∃ (c : Nat) (rest : Text), ofNat n = c :: rest ∧ c ≠ 48 ∧ isDigit c = true := by
  induction n using Nat.strongRecOn with
  | ind n ih =>
    rcases Nat.lt_or_ge n 10 with small | large
    · refine ⟨48 + n, [], ofNat_of_lt_ten small, by omega, isDigit_iff.mpr (by omega)⟩
    · obtain ⟨c, rest, same, nonzero, digit⟩ := ih (n / 10) (by omega) (by omega)
      refine ⟨c, rest ++ [48 + n % 10], ?_, nonzero, digit⟩
      rw [ofNat_of_ten_le large, same]
      rfl

theorem ofNat_ne_nil : ofNat n ≠ [] := by
  simp [ofNat, Nat.toDigits_ne_nil]

/-- Digits are read as the number that they write. -/
theorem toNat_ofNat (n : Nat) : toNat (ofNat n) = n := by
  induction n using Nat.strongRecOn with
  | ind n ih =>
    rcases Nat.lt_or_ge n 10 with small | large
    · rw [ofNat_of_lt_ten small]
      simp [toNat]
    · have front := ih (n / 10) (by omega)
      rw [ofNat_of_ten_le large]
      simp only [toNat, List.foldl_append, List.foldl_cons, List.foldl_nil] at front ⊢
      rw [front]
      omega

theorem length_ofNat_le {k : Nat} (some : 0 < k) (small : n < tenTo k) : (ofNat n).length ≤ k := by
  rw [ofNat, List.length_map]
  exact (Nat.length_toDigits_le_iff (by decide) some).mpr small

end Text

end SwaggerDoc
