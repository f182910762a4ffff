import SwaggerDoc.Proofs.Json.Grammar

/-!
The characters of a JSON text outside of its strings.

Quotes open and close strings, so a scan from left to right tells what stands in one. A text behind
which no string is open leaves a rest of the text as it is (`LeavesOutside`), and such texts can be
put behind each other. Outside of its strings JSON has no capital I and no capital N
(`IsJson.not_isDigitlessMark`).
-/

namespace SwaggerDoc.Json

/-- The characters outside of strings; the flag says whether a string is open. -/
def outsideFrom : Bool → Text → Text
  | _, [] => []
  | true, 92 :: _ :: rest => outsideFrom true rest
  | isOpen, x :: rest =>
    if x = 34 then outsideFrom (!isOpen) rest
    else if isOpen then outsideFrom true rest
    else x :: outsideFrom false rest

/-- The characters outside of strings. -/
def outside (t : Text) : Text := outsideFrom false t

/-- Outside of its strings the text has the given characters, and none of its strings is open. -/
def LeavesOutside (w front : Text) : Prop := ∀ rest, outside (w ++ rest) = front ++ outside rest

section Leaves

variable {u v w front back : Text}

theorem LeavesOutside.nil : LeavesOutside [] [] := fun _ => rfl

theorem LeavesOutside.append (first : LeavesOutside u front) (second : LeavesOutside v back) :
    LeavesOutside (u ++ v) (front ++ back) := fun rest => by
  rw [List.append_assoc, first, second, List.append_assoc]

theorem LeavesOutside.cons {x : CodePoint} (noQuote : x ≠ 34) (leaves : LeavesOutside w front) :
    LeavesOutside (x :: w) (x :: front) := fun rest => by
  rw [List.cons_append, outside, outsideFrom, if_neg noQuote, List.cons_append]
  · exact congrArg (x :: ·) (leaves rest)
  · exact nofun

/-- Without quotes there are no strings. -/
theorem LeavesOutside.of_noQuote (noQuote : 34 ∉ w) : LeavesOutside w w := by
  induction w with
  | nil => exact .nil
  | cons x w ih =>
    obtain ⟨other, later⟩ := List.ne_and_not_mem_of_not_mem_cons noQuote
    exact .cons (Ne.symm other) (ih later)

theorem outsideFrom_cons {x : CodePoint} (noQuote : x ≠ 34) (noBackslash : x ≠ 92) (rest : Text) :
    outsideFrom true (x :: rest) = outsideFrom true rest := by
  rw [outsideFrom, if_neg noQuote, if_pos rfl]
  exact fun _ _ _ same => absurd same noBackslash

theorem outsideFrom_append {t : Text} (inner : ∀ x ∈ t, x ≠ 34 ∧ x ≠ 92) (rest : Text) :
    outsideFrom true (t ++ rest) = outsideFrom true rest := by
  induction t with
  | nil => rfl
  | cons x t ih =>
    obtain ⟨here, later⟩ := List.forall_mem_cons.mp inner
    rw [List.cons_append, outsideFrom_cons here.1 here.2, ih later]

/-- A piece does not close its string. -/
theorem outsideFrom_piece (p : Piece) (rest : Text) :
    outsideFrom true (p.written ++ rest) = outsideFrom true rest := by
  cases p with
  | raw x ordinary =>
    simp only [Bool.and_eq_true, bne_iff_ne] at ordinary
    exact outsideFrom_cons ordinary.1.1.2 ordinary.1.2 rest
  | escape e => rfl
  | unit u =>
    have inner : ∀ x ∈ u.digits, x ≠ 34 ∧ x ≠ 92 := by
      intro x member
      have digit := List.all_eq_true.mp u.hexadecimal x member
      constructor <;> rintro rfl <;> cases digit
    exact outsideFrom_append inner rest

/-- A string leaves nothing outside. -/
theorem leavesOutside_quoted (pieces : List Piece) : LeavesOutside (quoted pieces) [] := by
  intro rest
  show outsideFrom true ((pieces.flatMap Piece.written ++ [34]) ++ rest) = outside rest
  induction pieces with
  | nil => rfl
  | cons p pieces ih =>
    rw [List.flatMap_cons, List.append_assoc, List.append_assoc, outsideFrom_piece,
      ← List.append_assoc]
    exact ih

end Leaves

/-! ## Numbers without digits -/

/-- A capital with which a word for a number without digits is written: I or N. -/
def IsDigitlessMark (x : CodePoint) : Prop := x = 73 ∨ x = 78

instance : DecidablePred IsDigitlessMark := fun _ => inferInstanceAs (Decidable (_ ∨ _))

/-- Outside of its strings, all of which are closed, the text has none of the capitals. -/
def HasNoMark (w : Text) : Prop := ∃ front, LeavesOutside w front ∧ ∀ x ∈ front, ¬ IsDigitlessMark x

section Marks

variable {u v w : Text}

theorem HasNoMark.append (first : HasNoMark u) (second : HasNoMark v) : HasNoMark (u ++ v) := by
  obtain ⟨front, leaves, none⟩ := first
  obtain ⟨back, leaves', none'⟩ := second
  exact ⟨front ++ back, leaves.append leaves', List.forall_mem_append.mpr ⟨none, none'⟩⟩

/-- Characters that are neither quotes nor capitals. -/
theorem hasNoMark_of_forall (plain : ∀ x ∈ w, x ≠ 34 ∧ ¬ IsDigitlessMark x) : HasNoMark w :=
  ⟨w, .of_noQuote fun quote => (plain 34 quote).1 rfl, fun x member => (plain x member).2⟩

theorem hasNoMark_quoted (pieces : List Piece) : HasNoMark (quoted pieces) :=
  ⟨[], leavesOutside_quoted pieces, List.forall_mem_nil _⟩

theorem HasNoMark.cons {x : CodePoint} (plain : x ≠ 34 ∧ ¬ IsDigitlessMark x) (none : HasNoMark w) :
    HasNoMark (x :: w) :=
  .append (hasNoMark_of_forall (List.forall_mem_singleton.mpr plain)) none

theorem hasNoMark_blanks (b : Blanks) : HasNoMark b.characters := by
  refine hasNoMark_of_forall fun x member => ?_
  have blank := List.all_eq_true.mp b.blank x member
  simp only [Bool.or_eq_true, beq_iff_eq, or_assoc] at blank
  rcases blank with rfl | rfl | rfl | rfl <;> decide

theorem HasNoMark.around (before after : Blanks) (none : HasNoMark w) :
    HasNoMark (around Blanks.characters before after w) :=
  (hasNoMark_blanks before).append (none.append (hasNoMark_blanks after))

theorem hasNoMark_name (name : Padded (List Piece)) :
    HasNoMark (nameWith Blanks.characters name) :=
  ((hasNoMark_quoted name.inner).around name.before name.after).append
    (hasNoMark_of_forall (by decide))

theorem not_isMark_of_isDigit {x : CodePoint} (digit : Text.isDigit x = true) :
    x ≠ 34 ∧ ¬ IsDigitlessMark x := by
  refine ⟨?_, ?_⟩
  · rintro rfl
    cases digit
  · rintro (rfl | rfl) <;> cases digit

theorem Number.hasNoMark (n : Number) : HasNoMark n.written := by
  have digits (d : Digits) : HasNoMark d.characters :=
    hasNoMark_of_forall fun x member => not_isMark_of_isDigit (d.digit x member)
  have whole : HasNoMark n.whole := hasNoMark_of_forall fun x member =>
    not_isMark_of_isDigit (Text.isDigit_iff.mpr (n.numeral.digits x member))
  have nothing : HasNoMark [] := hasNoMark_of_forall (List.forall_mem_nil _)
  have minus : HasNoMark (if n.negative then [45] else []) := by
    split
    · exact nothing.cons (by decide)
    · exact nothing
  refine minus.append (whole.append (.append ?_ ?_))
  · cases n.fraction with
    | none => exact nothing
    | some d => exact (digits d).cons (by decide)
  · cases n.exponent with
    | none => exact nothing
    | some e =>
      have sign : HasNoMark e.sign := by
        rcases e.isSign with same | same | same <;> rw [same] <;>
          exact hasNoMark_of_forall (by decide)
      refine (sign.append (digits e.digits)).cons ?_
      rcases e.isLetter with same | same <;> rw [same] <;> decide

mutual

/-- Outside of strings a value has none of the capitals. -/
theorem ValueDenotes.hasNoMark : {w : Text} → {v : Tree} → ValueDenotes w v → HasNoMark w
  | _, _, .null | _, _, .bool true | _, _, .bool false =>
    hasNoMark_of_forall (by decide)
  | _, _, .number n => n.hasNoMark
  | _, _, .string pieces => hasNoMark_quoted pieces
  | _, _, .emptyArray b | _, _, .emptyObject b =>
    ((hasNoMark_blanks b).append (hasNoMark_of_forall (by decide))).cons
      (by decide)
  | _, _, .array denote =>
    (denote.hasNoMark.append (hasNoMark_of_forall (by decide))).cons
      (by decide)
  | _, _, .object denote =>
    (denote.hasNoMark.append (hasNoMark_of_forall (by decide))).cons
      (by decide)

theorem ItemsDenote.hasNoMark : {w : Text} → {items : List Tree} → ItemsDenote w items → HasNoMark w
  | _, _, .last before after denotes => denotes.hasNoMark.around before after
  | _, _, .cons before after denotes more =>
    (denotes.hasNoMark.around before after).append (more.hasNoMark.cons (by decide))

theorem MembersDenote.hasNoMark : {w : Text} → {entries : List (Tree × Tree)} →
    MembersDenote w entries → HasNoMark w
  | _, _, .last name before after denotes =>
    (hasNoMark_name name).append (denotes.hasNoMark.around before after)
  | _, _, .cons name before after denotes more =>
    (hasNoMark_name name).append ((denotes.hasNoMark.around before after).append
      (more.hasNoMark.cons (by decide)))

end

/-- Outside of its strings JSON has no capital I and no capital N. -/
theorem IsJson.not_isDigitlessMark {t : Text} (json : IsJson t) :
    ∀ x ∈ outside t, ¬ IsDigitlessMark x := by
  obtain ⟨v, before, after, w, rfl, denotes⟩ := json
  obtain ⟨front, leaves, none⟩ := denotes.hasNoMark.around before after
  have same := leaves []
  rw [List.append_nil] at same
  rw [same]
  simpa [outside, outsideFrom] using none

end Marks

end SwaggerDoc.Json
