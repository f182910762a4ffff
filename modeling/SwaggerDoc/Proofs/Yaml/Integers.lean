import SwaggerDoc.Proofs.Number.Decimal
import SwaggerDoc.Proofs.Text.Split
import SwaggerDoc.Yaml.Content

/-!
Whole numbers as scalars.

A whole number is written without quotes, what is written has the type of whole numbers, and it is
read as the number.
-/

namespace SwaggerDoc.Yaml

/-- Digits without a zero in front of others. -/
structure Numeral (t : Text) : Prop where
  nonempty : t ≠ []
  digits : ∀ c : Nat, c ∈ t → 48 ≤ c ∧ c ≤ 57
  leading : t.head? = some 48 → t = [48]

theorem numeral_ofNat (n : Nat) : Numeral (Text.ofNat n) where
  nonempty := Text.ofNat_ne_nil
  digits c member := Text.isDigit_iff.mp (Text.isDigit_of_mem_ofNat member)
  leading zero := by
    cases n with
    | zero => rfl
    | succ n =>
      obtain ⟨c, rest, same, nonzero, -⟩ := Text.exists_ofNat_of_pos (Nat.succ_pos n)
      rw [same] at zero
      exact absurd (Option.some.inj zero) nonzero

/-- A whole number is written as a numeral, behind a minus sign if it is negative. -/
theorem ofInt_eq (i : Int) :
    Text.ofInt i = if i < 0 then 45 :: Text.ofNat i.natAbs else Text.ofNat i.natAbs := by
  cases i with
  | ofNat n => rfl
  | negSucc n => exact (if_pos (Int.negSucc_lt_zero n)).symm

section Numeral

variable {t : Text}

theorem Numeral.exists_cons (numeral : Numeral t) :
    ∃ (c : Nat) (rest : Text), t = c :: rest ∧ 48 ≤ c ∧ c ≤ 57 ∧ (c = 48 → rest = []) := by
  obtain ⟨c, rest, rfl⟩ := List.exists_cons_of_ne_nil numeral.nonempty
  obtain ⟨least, greatest⟩ := numeral.digits c List.mem_cons_self
  refine ⟨c, rest, rfl, least, greatest, ?_⟩
  rintro rfl
  exact (List.cons.inj (numeral.leading rfl)).2

theorem Numeral.unsigned_eq (numeral : Numeral t) : Implicit.unsigned t = t := by
  obtain ⟨c, rest, rfl, least, greatest, -⟩ := numeral.exists_cons
  have plus : c ≠ 43 := by omega
  have minus : c ≠ 45 := by omega
  simp [Implicit.unsigned, plus, minus]

theorem Numeral.not_mem (numeral : Numeral t) {c : Nat} (other : c < 48 ∨ 57 < c) : c ∉ t := by
  intro member
  have range := numeral.digits c member
  omega

theorem Numeral.isInt_eq (numeral : Numeral t) {u : Text} (body : Implicit.unsigned u = t) :
    Implicit.isInt u = true := by
  have whole : Text.split 58 t = [t] := Text.split_of_not_mem (numeral.not_mem (by decide))
  obtain ⟨c, rest, rfl, least, greatest, leading⟩ := numeral.exists_cons
  have isNumeral : Implicit.isNumeral (c :: rest) = true := by
    have all : rest.all Implicit.isDigitOrGap = true := by
      refine List.all_eq_true.mpr fun d member => ?_
      have digit := Text.isDigit_iff.mpr (numeral.digits d (List.mem_cons_of_mem c member))
      simp [Implicit.isDigitOrGap, digit]
    simp [Implicit.isNumeral, Text.isDigit_iff.mpr ⟨least, greatest⟩, all]
  unfold Implicit.isInt
  rw [body]
  by_cases zero : c = 48
  · rw [zero, leading zero]
    rfl
  · split
    · rfl
    · next same => exact absurd (List.cons.inj same).1 zero
    · next same => exact absurd (List.cons.inj same).1 zero
    · next same => exact absurd (List.cons.inj same).1 zero
    · rw [whole]
      exact isNumeral

theorem Numeral.not_sign (numeral : Numeral t) {c : Nat} {rest : Text} (same : t = c :: rest) :
    c ≠ 43 ∧ c ≠ 45 := by
  subst same
  have range := numeral.digits c List.mem_cons_self
  omega

end Numeral

/-- A sign that whole numbers are written with, and the numeral behind it. -/
theorem exists_ofInt (i : Int) : ∃ sign : Text, (sign = [] ∧ 0 ≤ i ∨ sign = [45] ∧ i < 0) ∧
    Text.ofInt i = sign ++ Text.ofNat i.natAbs := by
  rw [ofInt_eq]
  split
  · next negative => exact ⟨[45], .inr ⟨rfl, negative⟩, rfl⟩
  · next other => exact ⟨[], .inl ⟨rfl, Int.not_lt.mp other⟩, rfl⟩

theorem range_of_mem_ofInt {i : Int} {c : Nat} (member : c ∈ Text.ofInt i) :
    45 ≤ c ∧ c ≤ 57 ∧ c ≠ 46 := by
  obtain ⟨sign, sign_eq, same⟩ := exists_ofInt i
  rw [same] at member
  rcases List.mem_append.mp member with front | behind
  · rcases sign_eq with ⟨rfl, -⟩ | ⟨rfl, -⟩
    · cases front
    · obtain rfl := List.mem_singleton.mp front
      decide
  · have range := (numeral_ofNat i.natAbs).digits c behind
    omega

/-! ## The type -/

theorem not_word {words : List String} {t : Text} {c : Nat} (head : t.head? = some c)
    (apart : ∀ w ∈ words, ∀ d ∈ (text w).head?, 57 < d) (digit : c ≤ 57) :
    words.any (text · == t) = false := by
  refine List.any_eq_false.mpr fun w listed same => ?_
  rw [← eq_of_beq same] at head
  exact absurd (apart w listed c head) (Nat.not_lt.mpr digit)

theorem isFloat_of_not_mem {t : Text} (noPoint : 46 ∉ t) : Implicit.isFloat t = false := by
  have noPoint' : 46 ∉ Implicit.unsigned t := by
    unfold Implicit.unsigned
    split
    · split
      · exact fun member => noPoint (List.mem_cons_of_mem _ member)
      · exact noPoint
    · exact noPoint
  have whole : (Implicit.unsigned t).takeWhile (· != 46) = Implicit.unsigned t := by
    have all : ∀ c ∈ Implicit.unsigned t, (c != 46) = true := by
      intro c member
      simpa using fun same : c = 46 => noPoint' (same ▸ member)
    have ended : (Implicit.unsigned t ++ []).takeWhile (· != 46) =
        Implicit.unsigned t ++ [].takeWhile (· != 46) := List.takeWhile_append_of_pos all
    simpa using ended
  unfold Implicit.isFloat
  simp only [whole, List.drop_length]

/-- A numeral has the type of whole numbers, also behind a minus sign. -/
theorem tag_of_numeral {sign t : Text} (sign_eq : sign = [] ∨ sign = [45]) (numeral : Numeral t) :
    Implicit.tag (sign ++ t) = .int := by
  have body : Implicit.unsigned (sign ++ t) = t := by
    rcases sign_eq with rfl | rfl
    · exact numeral.unsigned_eq
    · rfl
  have range : ∀ c : Nat, c ∈ sign ++ t → c ≤ 57 ∧ c ≠ 46 := by
    intro c member
    rcases List.mem_append.mp member with front | behind
    · rcases sign_eq with rfl | rfl
      · cases front
      · obtain rfl := List.mem_singleton.mp front
        decide
    · have digit := numeral.digits c behind
      omega
  obtain ⟨c, head⟩ : ∃ c : Nat, (sign ++ t).head? = some c := by
    have some : sign ++ t ≠ [] := by simp [numeral.nonempty]
    exact ⟨_, List.head?_eq_some_head some⟩
  have digit := (range c (List.mem_of_mem_head? head)).1
  have noPoint : 46 ∉ sign ++ t := fun member => (range 46 member).2 rfl
  have noNull : Implicit.isNull (sign ++ t) = false := not_word head (by decide) digit
  have noBool : Implicit.isBool (sign ++ t) = false := not_word head (by decide) digit
  simp only [Implicit.tag, noNull, noBool, isFloat_of_not_mem noPoint, numeral.isInt_eq body,
    Bool.false_eq_true, if_false, if_true]

theorem tag_ofInt (i : Int) : Implicit.tag (Text.ofInt i) = .int := by
  obtain ⟨sign, sign_eq, same⟩ := exists_ofInt i
  rw [same]
  exact tag_of_numeral (sign_eq.imp And.left And.left) (numeral_ofNat i.natAbs)

/-! ## The style -/

theorem holdsStructure_eq_false {previous : CodePoint} {t : Text}
    (plain : ∀ c ∈ t, c ≠ 58 ∧ c ≠ 35) : Features.holdsStructure previous t = false := by
  induction t generalizing previous with
  | nil => rfl
  | cons c t ih =>
    obtain ⟨colon, comment⟩ := plain c List.mem_cons_self
    simp [Features.holdsStructure, colon, comment,
      ih fun d member => plain d (List.mem_cons_of_mem c member)]

theorem adjacent_eq_false {p q : CodePoint → Bool} {t : Text} (none : ∀ c ∈ t, p c = false) :
    Features.adjacent p q t = false := by
  induction t with
  | nil => rfl
  | cons c t ih =>
    cases t with
    | nil => rfl
    | cons d t =>
      rw [Features.adjacent, none c List.mem_cons_self, Bool.false_and, Bool.false_or]
      exact ih fun e member => none e (List.mem_cons_of_mem c member)

/-- Behind the first of the characters of a whole number comes a digit. -/
theorem behind_first {i : Int} {c : Nat} {rest : Text} (same : Text.ofInt i = c :: rest) :
    (c = 45 → ∃ (d : Nat) (more : Text), rest = d :: more ∧ 48 ≤ d ∧ d ≤ 57) ∧
      (c ≠ 45 → 48 ≤ c ∧ c ≤ 57) := by
  obtain ⟨sign, sign_eq, split⟩ := exists_ofInt i
  obtain ⟨d, more, digits, least, greatest, -⟩ := (numeral_ofNat i.natAbs).exists_cons
  rw [split, digits] at same
  rcases sign_eq with ⟨rfl, -⟩ | ⟨rfl, -⟩
  · obtain ⟨rfl, rfl⟩ := List.cons.inj same
    exact ⟨by omega, fun _ => ⟨least, greatest⟩⟩
  · obtain ⟨rfl, rfl⟩ := List.cons.inj same
    exact ⟨fun _ => ⟨d, more, rfl, least, greatest⟩, fun other => absurd rfl other⟩

/-- Characters that are neither blank nor a sign of structure are plain, if they do not begin like
structure. -/
theorem plain_of_ink {c : CodePoint} {rest : Text}
    (ink : ∀ x ∈ c :: rest, isPlainCharacter x = true ∧ isSeparator x = false ∧ x ≠ 58 ∧ x ≠ 35 ∧
      x ≠ 46)
    (leads : Features.leadsStructure c (isSeparator (rest.headD 0)) = false)
    (hyphens : Text.startsWith (c :: rest) (text "---") = false) :
    (Features.of (c :: rest)).plain = true := by
  have solid : ∀ x ∈ c :: rest, (x == 32) = false ∧ isBreak x = false := by
    intro x member
    have solid := (ink x member).2.1
    simp only [isSeparator, Bool.or_eq_false_iff] at solid
    exact ⟨solid.1.1.1.2, solid.2⟩
  have special : (c :: rest).all isPlainCharacter = true :=
    List.all_eq_true.mpr fun x member => (ink x member).1
  have multiline : (c :: rest).any isBreak = false :=
    List.any_eq_false.mpr fun x member => by simp [(solid x member).2]
  have breakSpace : Features.adjacent isBreak (· == 32) (c :: rest) = false :=
    adjacent_eq_false fun x member => (solid x member).2
  have spaceBreak : Features.adjacent (· == 32) isBreak (c :: rest) = false :=
    adjacent_eq_false fun x member => (solid x member).1
  have first := solid c List.mem_cons_self
  have last : ((c :: rest).getLast?.getD 0 == 32) = false ∧
      isBreak ((c :: rest).getLast?.getD 0) = false := by
    rw [List.getLast?_eq_some_getLast (List.cons_ne_nil c rest)]
    exact solid _ (List.getLast_mem _)
  have points : Text.startsWith (c :: rest) (text "...") = false := by
    have other : (46 == c) = false :=
      beq_eq_false_iff_ne.mpr (ink c List.mem_cons_self).2.2.2.2.symm
    exact (congrArg (· && _) other).trans (Bool.false_and _)
  have holds : Features.holdsStructure c rest = false := by
    refine holdsStructure_eq_false fun x member => ?_
    have other := (ink x (List.mem_cons_of_mem c member)).2.2
    exact ⟨other.1, other.2.1⟩
  simp only [Features.of, special, multiline, breakSpace, spaceBreak, first, last, points, hyphens,
    holds]
  cases rest with
  | nil => exact congrArg (fun leads => !(leads || false)) leads
  | cons d rest => exact congrArg (fun leads => !(leads || false)) leads

theorem digit_leads {c : Nat} (least : 48 ≤ c) (greatest : c ≤ 57) (separated : Bool) :
    Features.leadsStructure c separated = false := by
  have table : ∀ n < 10, ∀ b, Features.leadsStructure (48 + n) b = false := by decide
  have few : c - 48 < 10 := by omega
  have found := table (c - 48) few separated
  rwa [Nat.add_sub_cancel' least] at found

theorem digitOrSign {c : Nat} (least : 45 ≤ c) (greatest : c ≤ 57) :
    isPlainCharacter c = true ∧ isSeparator c = false := by
  have table : ∀ n < 13, isPlainCharacter (45 + n) = true ∧ isSeparator (45 + n) = false := by
    decide
  have few : c - 45 < 13 := by omega
  have found := table (c - 45) few
  rwa [Nat.add_sub_cancel' least] at found

/-- Digits behind a minus sign at most are plain. -/
theorem plain_ofInt (i : Int) : (Features.of (Text.ofInt i)).plain = true := by
  obtain ⟨c, rest, same⟩ : ∃ (c : Nat) (rest : Text), Text.ofInt i = c :: rest := by
    obtain ⟨sign, -, split⟩ := exists_ofInt i
    exact List.exists_cons_of_ne_nil (by simp [split, (numeral_ofNat i.natAbs).nonempty])
  obtain ⟨minus, digit⟩ := behind_first same
  have ink : ∀ x : Nat, x ∈ c :: rest → isPlainCharacter x = true ∧ isSeparator x = false ∧
      x ≠ 58 ∧ x ≠ 35 ∧ x ≠ 46 := by
    intro x member
    obtain ⟨least, greatest, noPoint⟩ := range_of_mem_ofInt (i := i) (same ▸ member)
    obtain ⟨plain, solid⟩ := digitOrSign least greatest
    exact ⟨plain, solid, by omega, by omega, noPoint⟩
  rw [same]
  by_cases sign : c = 45
  · obtain ⟨d, more, rfl, least, greatest⟩ := minus sign
    subst sign
    refine plain_of_ink ink ?_ ?_
    · have solid : isSeparator d = false := (digitOrSign (by omega) greatest).2
      simp [Features.leadsStructure, solid]
      decide
    · have other : (45 == d) = false := by
        rw [beq_eq_false_iff_ne]
        omega
      simp [Text.startsWith, text, List.isPrefixOf, other]
  · obtain ⟨least, greatest⟩ := digit sign
    have other : (45 == c) = false := beq_eq_false_iff_ne.mpr (Ne.symm sign)
    refine plain_of_ink ink (digit_leads least greatest _) ?_
    simp [Text.startsWith, text, List.isPrefixOf, other]

/-! ## The number -/

theorem basicDigits_eq_self {t : Text} (basic : ∀ c ∈ t, c < 128) : Literal.basicDigits t = t := by
  refine (List.map_congr_left fun c member => ?_).trans (List.map_id t)
  exact if_pos (basic c member)

theorem trim_eq_self {drop : CodePoint → Bool} {t : Text} (kept : ∀ c ∈ t, drop c = false) :
    Text.trim drop t = t := by
  have dropWhile_eq {u : Text} (kept : ∀ c ∈ u, drop c = false) : u.dropWhile drop = u := by
    cases u with
    | nil => rfl
    | cons c u => simp [kept c List.mem_cons_self]
  have reversed : ∀ c ∈ t.reverse, drop c = false := fun c member =>
    kept c (List.mem_reverse.mp member)
  rw [Text.trim, Text.trimEnd, dropWhile_eq kept, dropWhile_eq reversed, List.reverse_reverse]

theorem digitIn?_of_digit {c : Nat} (least : 48 ≤ c) (greatest : c ≤ 57) :
    Literal.digitIn? 10 c = some (c - 48) := by
  have digit : Text.isDigit c = true := Text.isDigit_iff.mpr ⟨least, greatest⟩
  have small : c - 48 < 10 := by omega
  simp [Literal.digitIn?, digit, small]

theorem mapM_digitIn? {t : Text} (digits : ∀ c : Nat, c ∈ t → 48 ≤ c ∧ c ≤ 57) :
    t.mapM (Literal.digitIn? 10) = some (t.map (· - 48)) := by
  induction t with
  | nil => rfl
  | cons c t ih =>
    obtain ⟨least, greatest⟩ := digits c List.mem_cons_self
    have later := ih fun d member => digits d (List.mem_cons_of_mem c member)
    rw [List.mapM_cons, digitIn?_of_digit least greatest, later]
    rfl

theorem signed_of_digits {t : Text} (digits : ∀ c : Nat, c ∈ t → 48 ≤ c ∧ c ≤ 57) :
    Literal.signed t = (false, t) := by
  unfold Literal.signed
  split
  · exact absurd (digits 43 List.mem_cons_self).1 (by decide)
  · exact absurd (digits 45 List.mem_cons_self).1 (by decide)
  · rfl

/-- Digits are read as the number that they write, unless there are too many. -/
theorem integer?_of_digits {t : Text} (nonempty : t ≠ [])
    (digits : ∀ c : Nat, c ∈ t → 48 ≤ c ∧ c ≤ 57) (short : t.length ≤ Literal.longest) :
    Literal.integer? 10 t = some (Text.toNat t : Int) := by
  have basic : Literal.basicDigits t = t := basicDigits_eq_self fun c member => by
    have range := digits c member
    exact Nat.lt_of_le_of_lt range.2 (by decide)
  have trimmed : Text.trim Text.isWhiteSpace t = t := trim_eq_self fun c member => by
    obtain ⟨least, greatest⟩ := digits c member
    have table : ∀ n < 10, Text.isWhiteSpace (48 + n) = false := by decide
    have found := table (c - 48) (by dsimp only [CodePoint] at *; omega)
    rwa [Nat.add_sub_cancel' least] at found
  have enough : (t.isEmpty || decide (t.length > Literal.longest)) = false := by
    simp [nonempty, short]
  have read : (t.mapM (Literal.digitIn? 10)).bind (fun values =>
      some ((values.foldl (fun n d => 10 * n + d) 0 : Nat) : Int)) = some (Text.toNat t : Int) := by
    rw [mapM_digitIn? digits]
    simp [List.foldl_map, Text.toNat]
  unfold Literal.integer?
  rw [basic, trimmed, signed_of_digits digits]
  simp only
  split
  · next c _ =>
    have noMark : Literal.baseLetter 10 c = false := rfl
    simp only [noMark, beq_self_eq_true, Bool.true_and, enough, Bool.false_eq_true, if_false]
    exact read
  · simp only [beq_self_eq_true, Bool.true_and, enough, Bool.false_eq_true, if_false]
    exact read

/-- The digits of a numeral are read as the number that they write. -/
theorem Numeral.integer?_eq {t : Text} (numeral : Numeral t) (short : t.length ≤ Literal.longest) :
    Literal.integer? 10 t = some (Text.toNat t : Int) :=
  integer?_of_digits numeral.nonempty numeral.digits short

theorem signed_of_numeral (negative : Bool) {t : Text} (numeral : Numeral t) :
    Content.signed ((if negative then [45] else []) ++ t) = .ok (negative, t) := by
  cases negative with
  | true => simp [Content.signed]
  | false =>
    obtain ⟨c, rest, rfl, -⟩ := numeral.exists_cons
    simp [Content.signed, numeral.not_sign rfl]

/-- A numeral behind a sign is read in tens. -/
theorem whole_of_numeral (negative : Bool) {t : Text} (numeral : Numeral t)
    (short : t.length ≤ Literal.longest) :
    Content.whole ((if negative then [45] else []) ++ t) =
      .ok (if negative then -(Text.toNat t : Int) else Text.toNat t) := by
  have noGaps : Content.withoutGaps ((if negative then [45] else []) ++ t) =
      (if negative then [45] else []) ++ t := by
    refine List.filter_eq_self.mpr fun c member => ?_
    have other : c ≠ 95 := by
      rintro rfl
      rcases List.mem_append.mp member with sign | digit
      · cases negative <;> simp at sign
      · exact numeral.not_mem (.inr (by decide)) digit
    simpa using other
  have one : Text.split 58 t = [t] := Text.split_of_not_mem (numeral.not_mem (by decide))
  have value : Content.inBase 10 t = .ok (Text.toNat t : Int) := by
    rw [Content.inBase, numeral.integer?_eq short]
  have signed := signed_of_numeral negative numeral
  obtain ⟨c, rest, rfl, least, greatest, leading⟩ := numeral.exists_cons
  unfold Content.whole
  rw [noGaps, signed]
  simp only [bind, Except.bind]
  by_cases zero : c = 48
  · obtain rfl := leading zero
    subst zero
    cases negative <;> rfl
  · split
    · next same => cases same
    · next same => exact absurd (List.cons.inj same).1 zero
    · next same => exact absurd (List.cons.inj same).1 zero
    · next same => exact absurd (List.cons.inj same).1 zero
    · next same => exact absurd (List.cons.inj same).1 zero
    · simp [one, value, bind, Except.bind, pure, Except.pure]

/-- What a whole number is written as is read as the number. -/
theorem whole_ofInt {i : Int} (small : i.natAbs < tenTo 4300) :
    Content.whole (Text.ofInt i) = .ok i := by
  have short : (Text.ofNat i.natAbs).length ≤ Literal.longest :=
    Text.length_ofNat_le (by decide) small
  have read := whole_of_numeral (decide (i < 0)) (numeral_ofNat i.natAbs) short
  rw [Text.toNat_ofNat] at read
  by_cases negative : i < 0
  · simp only [negative, decide_true, if_true, List.singleton_append] at read
    rw [ofInt_eq, if_pos negative, read]
    congr 1
    omega
  · simp only [negative, decide_false, Bool.false_eq_true, if_false, List.nil_append] at read
    rw [ofInt_eq, if_neg negative, read]
    congr 1
    omega

end SwaggerDoc.Yaml
