import SwaggerDoc.Proofs.Json.Grammar
import SwaggerDoc.Render.Json

/-!
Doubles as numbers of JSON.

A finite double is written as a number of JSON, whether it stands in place notation or behind an
exponent (`Render.exists_number_of_finite`). The decimal that is written has digits other than zero,
except where none was found.
-/

namespace SwaggerDoc

namespace Decimal

variable {significand count : Nat} {exponent point : Int}

theorem digits_ne_zero_of_ofCount? {d : Decimal}
    (found : ofCount? significand exponent point count = some d) : d.digits ≠ 0 := by
  unfold ofCount? at found
  extract_lets unit place num den value low high inside below belowInside aboveInside at found
  have nonzero (given : belowInside = true) : below ≠ 0 := by
    simp only [belowInside, Bool.and_eq_true, bne_iff_ne] at given
    exact given.1
  split at found
  · obtain ⟨lower, -⟩ := Bool.and_eq_true_iff.mp ‹_›
    split at found
    · exact Option.some.inj found ▸ nonzero lower
    · exact Option.some.inj found ▸ Nat.succ_ne_zero below
  · split at found
    · exact Option.some.inj found ▸ nonzero ‹_›
    · split at found
      · exact Option.some.inj found ▸ Nat.succ_ne_zero below
      · cases found

theorem shortest_digits (significand : Nat) (exponent : Int) :
    (shortest significand exponent).digits ≠ 0 ∨ shortest significand exponent = ⟨0, 0⟩ := by
  unfold shortest
  dsimp only
  cases search : List.findSome? _ (List.range 17) with
  | none => exact .inr rfl
  | some d =>
    obtain ⟨n, -, found⟩ := List.exists_of_findSome?_eq_some search
    exact .inl (digits_ne_zero_of_ofCount? found)

end Decimal

namespace Text

theorem trimEnd_cons {drop : CodePoint → Bool} {c : CodePoint} (kept : drop c = false) (t : Text) :
    trimEnd drop (c :: t) = c :: trimEnd drop t := by
  rw [trimEnd, List.reverse_cons, List.dropWhile_append]
  split
  · simp_all [trimEnd]
  · simp [trimEnd]

/-- A number that is not zero keeps its first digit when the zeros at its end go. -/
theorem exists_trimEnd_ofNat {n : Nat} (nonzero : n ≠ 0) :
    ∃ (c : Nat) (rest : Text), trimEnd (· == 48) (ofNat n) = c :: rest ∧ c ≠ 48 ∧
      ∀ x ∈ c :: rest, isDigit x = true := by
  obtain ⟨c, rest, same, other, digit⟩ := exists_ofNat_of_pos (Nat.pos_of_ne_zero nonzero)
  refine ⟨c, trimEnd (· == 48) rest, ?_, other, List.forall_mem_cons.mpr ⟨digit, ?_⟩⟩
  · rw [same, trimEnd_cons (by simp [other])]
  · intro x member
    have kept := (List.dropWhile_sublist _).subset (List.mem_reverse.mp member)
    have listed : x ∈ ofNat n := same ▸ List.mem_cons_of_mem c (List.mem_reverse.mp kept)
    exact isDigit_of_mem_ofNat listed

theorem isDigit_of_mem_zeros {n : Nat} {x : CodePoint} (member : x ∈ List.replicate n (48 : Nat)) :
    isDigit x = true := by
  rw [List.eq_of_mem_replicate member]
  rfl

theorem isDigit_of_mem_padded {width n : Nat} {x : CodePoint} (member : x ∈ padded width n) :
    isDigit x = true := by
  rcases List.mem_append.mp member with zero | digit
  · exact isDigit_of_mem_zeros zero
  · exact isDigit_of_mem_ofNat digit

end Text

namespace Render

open Text

/-- The minus sign of a number. -/
abbrev minus (negative : Bool) : Text := if negative then [45] else []

/-- A numeral, a point and digits are a number. -/
theorem exists_number_of_places (negative : Bool) {whole places : Text}
    (numeral : Yaml.Numeral whole) (nonempty : places ≠ []) (digits : ∀ x ∈ places, isDigit x = true) :
    ∃ n : Json.Number, n.written = minus negative ++ (whole ++ 46 :: places) :=
  ⟨⟨negative, whole, numeral, some ⟨places, nonempty, digits⟩, none⟩, by simp [Json.Number.written]⟩

theorem numeral_of_cons {c : Nat} {rest : Text} (other : c ≠ 48)
    (digits : ∀ x ∈ c :: rest, isDigit x = true) : Yaml.Numeral (c :: rest) where
  nonempty := List.cons_ne_nil c rest
  digits x member := isDigit_iff.mp (digits x member)
  leading zero := absurd (Option.some.inj zero) other

/-- The digits in front of a point, filled with zeros, are a numeral. -/
theorem numeral_filled {c : Nat} {rest : Text} (other : c ≠ 48)
    (digits : ∀ x ∈ c :: rest, isDigit x = true) {count : Nat} (some : 0 < count) (zeros : Nat) :
    Yaml.Numeral ((c :: rest).take count ++ List.replicate zeros 48) := by
  have all : ∀ x ∈ (c :: rest).take count ++ List.replicate zeros 48, isDigit x = true :=
    List.forall_mem_append.mpr
      ⟨fun x member => digits x (List.mem_of_mem_take member), fun _ => isDigit_of_mem_zeros⟩
  obtain ⟨count, rfl⟩ := Nat.exists_eq_succ_of_ne_zero (Nat.ne_of_gt some)
  exact numeral_of_cons other all

/-- Digits, of which the first stands before a point if there are more, and an exponent. -/
theorem exists_number_of_exponent (negative : Bool) {c : Nat} {rest : Text} (other : c ≠ 48)
    (digits : ∀ x ∈ c :: rest, isDigit x = true) (below : Prop) [Decidable below] (size : Nat) :
    ∃ n : Json.Number, n.written = minus negative ++ (NumberLayout.leadingDigit false (c :: rest)
      ++ [101, if below then 45 else 43] ++ padded 2 size) := by
  have nonempty : padded 2 size ≠ [] := by simp [padded, ofNat_ne_nil]
  have isSign : [if below then 45 else 43] = ([] : Text) ∨ [if below then 45 else 43] = [43] ∨
      [if below then 45 else 43] = [45] := by split <;> simp
  let exponent : Json.Exponent :=
    ⟨101, .inl rfl, _, isSign, ⟨padded 2 size, nonempty, fun _ => isDigit_of_mem_padded⟩⟩
  obtain ⟨first, later⟩ := List.forall_mem_cons.mp digits
  have numeral : Yaml.Numeral [c] := numeral_of_cons other (List.forall_mem_singleton.mpr first)
  cases rest with
  | nil => exact ⟨⟨negative, [c], numeral, none, some exponent⟩, rfl⟩
  | cons d rest =>
    exact ⟨⟨negative, [c], numeral, some ⟨d :: rest, List.cons_ne_nil d rest, later⟩, some exponent⟩,
      by simp [Json.Number.written, NumberLayout.leadingDigit, Json.Exponent.written, exponent]⟩

/-- A decimal with digits is a number. -/
theorem exists_number_of_decimal (negative : Bool) {d : Decimal} (nonzero : d.digits ≠ 0) :
    ∃ n : Json.Number, n.written = minus negative ++ jsonNumbers.decimal d := by
  obtain ⟨c, rest, kept, other, digits⟩ := exists_trimEnd_ofNat nonzero
  unfold NumberLayout.decimal
  simp only [kept]
  generalize (ofNat d.digits).length + d.exponent = point
  split
  · split
    · have places : ∀ x ∈ List.replicate (-point).toNat 48 ++ c :: rest, isDigit x = true :=
        List.forall_mem_append.mpr ⟨fun _ => isDigit_of_mem_zeros, digits⟩
      exact exists_number_of_places negative (Yaml.numeral_ofNat 0) (by simp) places
    · have some : 0 < point.toNat := by omega
      have numeral := numeral_filled other digits some
        (point.toNat - ((c :: rest).take point.toNat).length)
      have places : ∀ x ∈ (c :: rest).drop point.toNat, isDigit x = true :=
        fun x member => digits x (List.mem_of_mem_drop member)
      generalize (c :: rest).drop point.toNat = behind at places ⊢
      rw [List.append_assoc]
      cases behind with
      | nil => exact exists_number_of_places negative numeral (by decide) (by decide)
      | cons x more => exact exists_number_of_places negative numeral (List.cons_ne_nil x more) places
  · exact exists_number_of_exponent negative other digits _ _

/-- A finite double is written as a number. -/
theorem exists_number_of_finite (negative : Bool) (significand : Nat) (exponent : Int) :
    ∃ n : Json.Number, n.written = jsonNumbers.number (.finite negative significand exponent) := by
  have zero : ∃ n : Json.Number, n.written = minus negative ++ text "0.0" :=
    exists_number_of_places negative (Yaml.numeral_ofNat 0) (by decide) (by decide)
  rw [NumberLayout.number]
  by_cases empty : significand = 0
  · rw [if_pos empty]
    exact zero
  rw [if_neg empty]
  rcases Decimal.shortest_digits significand exponent with nonzero | same
  · exact exists_number_of_decimal negative nonzero
  · rw [same]
    exact zero

end Render

end SwaggerDoc
