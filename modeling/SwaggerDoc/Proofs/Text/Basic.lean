import SwaggerDoc.Number.Shortest
import SwaggerDoc.Proofs.Number.Decimal

/-!
Texts of basic characters.

The basic characters are the printable ones of the basic alphabet. Numbers are written with nothing
else.
-/

namespace SwaggerDoc

namespace Text

/-- The text has no other characters than the printable ones of the basic alphabet. -/
def IsBasic (t : Text) : Prop := ∀ x ∈ t, 32 ≤ x ∧ x < 127

instance : DecidablePred IsBasic := fun t => inferInstanceAs (Decidable (∀ x ∈ t, 32 ≤ x ∧ x < 127))

variable {t u : Text}

theorem isBasic_nil : IsBasic [] := List.forall_mem_nil _

theorem IsBasic.cons {x : CodePoint} (first : 32 ≤ x ∧ x < 127) (rest : t.IsBasic) :
    IsBasic (x :: t) :=
  List.forall_mem_cons.mpr ⟨first, rest⟩

theorem IsBasic.append (front : t.IsBasic) (rest : u.IsBasic) : (t ++ u).IsBasic :=
  List.forall_mem_append.mpr ⟨front, rest⟩

theorem isBasic_replicate (n : Nat) {x : CodePoint} (basic : 32 ≤ x ∧ x < 127) :
    IsBasic (List.replicate n x) := by
  intro y member
  rw [List.eq_of_mem_replicate member]
  exact basic

theorem isBasic_ofNat (n : Nat) : (ofNat n).IsBasic := by
  intro x member
  have digit := isDigit_iff.mp (isDigit_of_mem_ofNat member)
  exact ⟨Nat.le_trans (by decide) digit.1, Nat.lt_of_le_of_lt digit.2 (by decide)⟩

theorem isBasic_ofInt (i : Int) : (ofInt i).IsBasic := by
  cases i with
  | ofNat n => exact isBasic_ofNat n
  | negSucc n => exact (isBasic_ofNat (n + 1)).cons (by decide)

theorem isBasic_padded (width n : Nat) : (padded width n).IsBasic :=
  (isBasic_replicate _ (by decide)).append (isBasic_ofNat n)

theorem IsBasic.trimEnd (basic : t.IsBasic) (drop : CodePoint → Bool) : (t.trimEnd drop).IsBasic := by
  intro x member
  have kept := (List.dropWhile_sublist drop).subset (List.mem_reverse.mp member)
  exact basic x (List.mem_reverse.mp kept)

end Text

namespace NumberLayout

open Text

variable (layout : NumberLayout)

theorem isBasic_leadingDigit (forced : Bool) {digits : Text} (basic : digits.IsBasic) :
    (leadingDigit forced digits).IsBasic := by
  match digits with
  | [] => exact isBasic_nil
  | [d] =>
    have digit := basic d List.mem_cons_self
    cases forced with
    | true => exact .cons digit (.cons (by decide) (.cons (by decide) isBasic_nil))
    | false => exact .cons digit isBasic_nil
  | d :: e :: rest =>
    obtain ⟨digit, others⟩ := List.forall_mem_cons.mp basic
    exact .cons digit (.cons (by decide) others)

theorem isBasic_decimal (d : Decimal) : (layout.decimal d).IsBasic := by
  have digits := (isBasic_ofNat d.digits).trimEnd (· == 48)
  unfold decimal
  dsimp only
  split
  · split
    · have front : IsBasic (text "0.") := by decide
      exact (front.append (isBasic_replicate _ (by decide))).append digits
    · refine IsBasic.append (IsBasic.append (IsBasic.append ?_ ?_) ?_) ?_
      · exact fun x member => digits x (List.mem_of_mem_take member)
      · exact isBasic_replicate _ (by decide)
      · exact .cons (by decide) isBasic_nil
      · split
        · exact .cons (by decide) isBasic_nil
        · exact fun x member => digits x (List.mem_of_mem_drop member)
  · have sign (condition : Prop) [Decidable condition] :
        32 ≤ (if condition then 45 else 43) ∧ (if condition then 45 else 43) < 127 := by
      split <;> decide
    refine ((isBasic_leadingDigit _ digits).append ?_).append (isBasic_padded 2 _)
    exact .cons (by decide) (.cons (sign _) isBasic_nil)

/-- Doubles are written with basic characters if their words are. -/
theorem isBasic_number (nan : layout.nan.IsBasic) (infinity : layout.infinity.IsBasic)
    (f : Binary64) : (layout.number f).IsBasic := by
  have minus (negative : Bool) : IsBasic (if negative then [45] else []) := by
    split
    · exact .cons (by decide) isBasic_nil
    · exact isBasic_nil
  cases f with
  | nan label => exact nan
  | infinite negative => exact (minus negative).append infinity
  | finite negative significand exponent =>
    refine (minus negative).append ?_
    split
    · decide
    · exact layout.isBasic_decimal _

end NumberLayout

end SwaggerDoc
