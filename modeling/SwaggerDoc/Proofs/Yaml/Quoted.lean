import Mathlib.Algebra.Group.Nat.Defs
import SwaggerDoc.Proofs.Yaml.Cursor
import SwaggerDoc.Yaml.Lexeme.Quoted
import SwaggerDoc.Yaml.Writer

/-!
What stands between quotes, and what it is read as.

`DoubleQuoted` and `SingleQuoted` say which characters between quotes stand for which text when
lines are broken at will and continued in one column. Reading gives back the text
(`DoubleQuoted.quoted_eq`, `SingleQuoted.quoted_eq`), wherever the lines were broken.
-/

namespace SwaggerDoc.Yaml

/-- The characters between double quotes stand for a text. A line is ended by a backslash, and a
space at the start of the next one is escaped. -/
inductive DoubleQuoted (column : Nat) : (written meaning : Text) → Prop
  | nil : DoubleQuoted column [] []
  | raw {x : CodePoint} {w t : Text} (needless : Page.needsEscape x = false) (ink : x ≠ 32) :
    DoubleQuoted column w t → DoubleQuoted column (x :: w) (x :: t)
  | spaces (n : Nat) {w t : Text} (last : w.head? ≠ some 32) :
    DoubleQuoted column w t →
      DoubleQuoted column (List.replicate (n + 1) 32 ++ w) (List.replicate (n + 1) 32 ++ t)
  | escape {x : CodePoint} {w t : Text} (character : x < 0x110000) :
    DoubleQuoted column w t → DoubleQuoted column (Page.escape x ++ w) (x :: t)
  | space {w t : Text} : DoubleQuoted column w t → DoubleQuoted column (92 :: 32 :: w) (32 :: t)
  | fold {w t : Text} (ink : w.head? ≠ some 32) :
    DoubleQuoted column w t → DoubleQuoted column (92 :: newLine column ++ w) t

/-- No blank and no line break comes first. -/
def BeginsSolid (t : Text) : Prop := ∀ x ∈ t.head?, isSeparator x = false

/-- The characters between single quotes stand for a text. A single space can be a line break
instead, line breaks have one more in front if they begin with a line feed, and a quote is written
twice. -/
inductive SingleQuoted (column : Nat) : (written meaning : Text) → Prop
  | nil : SingleQuoted column [] []
  | raw {x : CodePoint} {w t : Text} (plain : isPlainCharacter x = true)
    (ink : isSeparator x = false) (other : x ≠ 39) :
    SingleQuoted column w t → SingleQuoted column (x :: w) (x :: t)
  | quote {w t : Text} : SingleQuoted column w t → SingleQuoted column (39 :: 39 :: w) (39 :: t)
  | spaces (n : Nat) {w t : Text} (solid : BeginsSolid w) :
    SingleQuoted column w t →
      SingleQuoted column (List.replicate (n + 1) 32 ++ w) (List.replicate (n + 1) 32 ++ t)
  | fold {w t : Text} (solid : BeginsSolid w) :
    SingleQuoted column w t → SingleQuoted column (newLine column ++ w) (32 :: t)
  | breaks {b : CodePoint} {bs w t : Text} (ends : ∀ x ∈ b :: bs, isBreak x = true ∧ x ≠ 0x85)
    (solid : BeginsSolid w) :
    SingleQuoted column w t →
      SingleQuoted column
        ((if b = 10 then [10] else []) ++ (b :: bs) ++ (List.replicate column 32 ++ w))
        (b :: bs ++ t)

/-! ## Passing line breaks -/

section Breaks

variable {isGap : CodePoint → Bool} {read rest : Text} {column : Nat}

theorem Breaks.from_behind (bs : Text) {n : Nat} (gap : isGap 32 = true)
    (noGap : ∀ x, isBreak x = true → isGap x = false)
    (stop : ∀ x ∈ rest.head?, isGap x = false ∧ isBreak x = false)
    (ends : ∀ x ∈ bs, isBreak x = true ∧ x ≠ 0x85) (fuel : bs.length < n)
    (inside : (Cursor.behind (read ++ bs) (List.replicate column 32 ++ rest)).atDocument = false) :
    Breaks.from isGap n (.behind read (bs ++ (List.replicate column 32 ++ rest))) =
      ⟨bs, .behind (read ++ bs ++ List.replicate column 32) rest, false⟩ := by
  induction bs generalizing read n with
  | nil =>
    obtain ⟨n, rfl⟩ : ∃ m, n = m + 1 := ⟨n - 1, by simp at fuel; omega⟩
    have blank : ∀ x ∈ List.replicate column 32, isGap x = true := by
      intro x member
      rw [List.eq_of_mem_replicate member, gap]
    simp only [List.append_nil] at inside
    simp only [List.nil_append, Breaks.from, inside, Bool.false_eq_true, if_false,
      Cursor.skip_behind blank fun x head => (stop x head).1,
      Cursor.lineBreak?_eq_none _ fun x head => (stop x head).2, List.append_nil]
  | cons b bs ih =>
    obtain ⟨n, rfl⟩ : ∃ m, n = m + 1 := ⟨n - 1, by simp at fuel; omega⟩
    obtain ⟨break_b, other⟩ := ends b List.mem_cons_self
    have outside :
        (Cursor.behind read (b :: (bs ++ (List.replicate column 32 ++ rest)))).atDocument =
        false := by
      refine Cursor.atDocument_eq_false (.inr fun x head => ?_)
      obtain rfl := Option.some.inj head
      constructor
      · rintro rfl
        cases break_b
      · rintro rfl
        cases break_b
    have none : (Cursor.behind read (b :: (bs ++ (List.replicate column 32 ++ rest)))).skip isGap =
        .behind read (b :: (bs ++ (List.replicate column 32 ++ rest))) := by
      refine Cursor.skip_behind_stop fun x head => ?_
      obtain rfl := Option.some.inj head
      exact noGap _ break_b
    have more : Breaks.from isGap n (.behind (read ++ [b]) _) = _ :=
      ih (fun x member => ends x (List.mem_cons_of_mem _ member))
        (by simp only [List.length_cons] at fuel; omega) (by simpa using inside)
    simp only [List.cons_append, Breaks.from, outside, Bool.false_eq_true, if_false, none,
      Cursor.lineBreak?_behind_cons break_b, if_neg other, more]
    simp

end Breaks

/-! ## Escapes -/

namespace Lexeme

theorem mem_of_lookup {x letter : CodePoint} (known : escapeLetters.lookup x = some letter) :
    (x, letter) ∈ escapeLetters := by
  obtain ⟨before, after, same, -⟩ := List.lookup_eq_some_iff.mp known
  rw [same]
  simp

theorem escaped?_of_mem :
    ∀ e ∈ escapeLetters, escaped? e.2 = some e.1 := by
  decide

theorem hexValue?_capital :
    ∀ d < 16,
      Text.hexValue? ((fun c => if 97 ≤ c then c - 32 else c) (Text.hexDigit d)) = some d := by
  decide

/-- Capital hexadecimal digits are read as the number that they write, as far as they reach. -/
theorem hexValues_capitalHex (count n : Nat) :
    ∃ values, (Page.capitalHex count n).mapM Text.hexValue? = some values ∧
      values.length = count ∧ values.foldl (fun n d => n * 16 + d) 0 = n % 16 ^ count := by
  induction count generalizing n with
  | zero => exact ⟨[], rfl, rfl, by simp [Nat.mod_one]⟩
  | succ count ih =>
    obtain ⟨values, read, length, sum⟩ := ih (n / 16)
    have last := hexValue?_capital (n % 16) (Nat.mod_lt n (by decide))
    have digits : Page.capitalHex (count + 1) n =
        Page.capitalHex count (n / 16) ++
          [(fun c => if 97 ≤ c then c - 32 else c) (Text.hexDigit (n % 16))] := by
      simp [Page.capitalHex, Text.hex]
    refine ⟨values ++ [n % 16], ?_, by simp [length], ?_⟩
    · rw [digits, List.mapM_append, read]
      simp [last]
    · rw [List.foldl_append, sum, List.foldl_cons, List.foldl_nil, Nat.pow_succ,
        Nat.mul_comm (16 ^ count) 16, Nat.mod_mul]
      omega

theorem length_capitalHex (count n : Nat) : (Page.capitalHex count n).length = count := by
  induction count generalizing n with
  | zero => rfl
  | succ count ih =>
    have shorter := ih (n / 16)
    simp only [Page.capitalHex, List.length_map] at shorter ⊢
    simp [Text.hex, shorter]

variable {read rest : Text} {x : CodePoint}

/-- The number of a character behind a letter that announces its digits. -/
theorem escapeSequence_number {digits : Text} {values : List Nat} (letter : Nat)
    (plain : escaped? letter = none) (announces : escapedDigits? letter = some digits.length)
    (hexadecimal : digits.mapM Text.hexValue? = some values)
    (length : values.length = digits.length)
    (sum : values.foldl (fun n d => n * 16 + d) 0 = x) (character : x < 0x110000) :
    escapeSequence (.behind read (92 :: letter :: (digits ++ rest))) =
      .ok ([x], .behind (read ++ 92 :: letter :: digits) rest) := by
  have moved : (Cursor.behind read (92 :: letter :: (digits ++ rest))).advance
      (2 + digits.length) = .behind (read ++ 92 :: letter :: digits) rest := by
    have size : (92 :: letter :: digits).length = 2 + digits.length := by
      simp only [List.length_cons]
      omega
    rw [← size]
    exact Cursor.advance_behind (92 :: letter :: digits)
  have ahead : (Cursor.behind read (92 :: letter :: (digits ++ rest))).peekAt 1 = letter := rfl
  simp only [escapeSequence, ahead, plain, announces, Cursor.rest_behind, List.drop_succ_cons,
    List.drop_zero, List.take_left, hexadecimal, length, Nat.lt_irrefl, if_false, sum, numbered,
    if_pos character, moved]
  rfl

theorem escapeSequence_digits (letter count : Nat) (plain : escaped? letter = none)
    (announces : escapedDigits? letter = some count) (fits : x < 16 ^ count)
    (character : x < 0x110000) :
    escapeSequence (.behind read (92 :: letter :: (Page.capitalHex count x ++ rest))) =
      .ok ([x], .behind (read ++ 92 :: letter :: Page.capitalHex count x) rest) := by
  obtain ⟨values, digits, length, sum⟩ := hexValues_capitalHex count x
  rw [Nat.mod_eq_of_lt fits] at sum
  exact escapeSequence_number letter plain (by rw [length_capitalHex, announces]) digits
    (by rw [length_capitalHex, length]) sum character

theorem escapeSequence_escape (read rest : Text) (character : x < 0x110000) :
    escapeSequence (.behind read (Page.escape x ++ rest)) =
      .ok ([x], .behind (read ++ Page.escape x) rest) := by
  unfold Page.escape
  cases known : escapeLetters.lookup x with
  | some letter =>
    have plain := escaped?_of_mem (x, letter) (mem_of_lookup known)
    have ahead : (Cursor.behind read (92 :: [letter] ++ rest)).peekAt 1 = letter := rfl
    simp only [escapeSequence, ahead, plain]
    exact congrArg (fun c => Except.ok ([x], c)) (Cursor.advance_behind [92, letter])
  | none =>
    simp only
    split
    · next small => exact escapeSequence_digits 120 2 rfl rfl (Nat.lt_succ_of_le small) character
    · split
      · next medium =>
        exact escapeSequence_digits 117 4 rfl rfl (Nat.lt_succ_of_le medium) character
      · exact escapeSequence_digits 85 8 rfl rfl (Nat.lt_trans character (by decide)) character

/-- A space can stand behind a backslash. -/
theorem escapeSequence_space :
    escapeSequence (.behind read (92 :: 32 :: rest)) =
      .ok ([32], .behind (read ++ [92, 32]) rest) :=
  congrArg (fun c => Except.ok ([32], c)) (Cursor.advance_behind [92, 32])

theorem isBlankBetween_of_isBreak (x : CodePoint) (ends : isBreak x = true) :
    isBlankBetween x = false := by
  simp only [isBreak, Bool.or_eq_true, beq_iff_eq] at ends
  rcases ends with ((rfl | rfl) | rfl) | rfl <;> rfl

theorem isBlankBetween_of_solid (ink : isSeparator x = false) :
    isBlankBetween x = false ∧ isBreak x = false := by
  simp only [isSeparator, Bool.or_eq_false_iff, beq_eq_false_iff_ne] at ink
  obtain ⟨⟨⟨⟨-, space⟩, tab⟩, -⟩, noBreak⟩ := ink
  exact ⟨by simp [isBlankBetween, space, tab], noBreak⟩

/-- A backslash at the end of a line joins it to the next one. -/
theorem escapeSequence_newLine (read : Text) {column : Nat} (indented : 0 < column)
    (stop : ∀ x ∈ rest.head?, isBlankBetween x = false ∧ isBreak x = false) :
    escapeSequence (.behind read (92 :: newLine column ++ rest)) =
      .ok ([], .behind (read ++ 92 :: newLine column) rest) := by
  have passed : Breaks.from isBlankBetween ((List.replicate column 32 ++ rest).length + 1)
      (.behind (read ++ [92] ++ [10]) (List.replicate column 32 ++ rest)) = _ :=
    Breaks.from_behind [] rfl isBlankBetween_of_isBreak stop (List.forall_mem_nil _)
      (Nat.succ_pos _) (Cursor.atDocument_spaces indented)
  have ahead : (Cursor.behind read (92 :: newLine column ++ rest)).peekAt 1 = 10 := rfl
  have plain : escaped? 10 = none := by decide
  have digits : escapedDigits? 10 = none := by decide
  have next : (Cursor.behind read (92 :: newLine column ++ rest)).next.lineBreak? =
      some (10, .behind (read ++ [92] ++ [10]) (List.replicate column 32 ++ rest)) := by
    rw [newLine, List.cons_append, List.cons_append, Cursor.next_behind_cons,
      Cursor.lineBreak?_behind_cons rfl]
    rfl
  simp only [escapeSequence, ahead, plain, digits, next, Cursor.rest_behind, passed]
  simp [newLine]

/-! ## Reading on -/

/-- Whether the scalar is ended by the quote that stands here. -/
def closes (quote : CodePoint) (c : Cursor) : Bool :=
  decide (c.peek = quote) && !(quote == 39 && c.peekAt 1 == 39)

/-- What stands for something else than itself, or could, is read in one piece. -/
def pieceAt (quote : CodePoint) (c : Cursor) : Except Problem (Text × Cursor) :=
  if c.peek = 39 && quote = 39 then .ok ([39], c.advance 2)
  else if c.peek = 92 && quote = 34 then escapeSequence c
  else if isSeparator c.peek then blanksBetween c
  else .ok ([c.peek], c.next)

/-- A text that has been read, with characters in front of it. -/
def prepend (t : Text) (found : Text × Cursor) : Text × Cursor := (t ++ found.1, found.2)

variable {quote n : Nat}

theorem quotedFrom_succ {c d : Cursor} {found : Text} (spans : c.span isOrdinary = (found, d)) :
    quotedFrom quote (n + 1) c =
      if closes quote d then .ok (found, d.next)
      else (pieceAt quote d).bind fun piece =>
        (quotedFrom quote n piece.2).map (prepend (found ++ piece.1)) := by
  have ends (r : Except Problem (Text × Cursor)) :
      (do
        let piece ← r
        let more ← quotedFrom quote n piece.2
        return (found ++ piece.1 ++ more.1, more.2)) =
      r.bind fun piece => (quotedFrom quote n piece.2).map (prepend (found ++ piece.1)) := by
    cases r with
    | error p => rfl
    | ok piece =>
      simp only [bind, Except.bind]
      cases quotedFrom quote n piece.2 <;> rfl
  rw [quotedFrom, spans, pieceAt]
  by_cases last : closes quote d = true
  · rw [if_pos last]
    exact if_pos last
  · rw [if_neg last]
    refine (if_neg last).trans ?_
    split
    · exact ends _
    · split
      · exact ends _
      · split
        · exact ends _
        · exact ends _

theorem quotedFrom_ordinary (ordinary : isOrdinary x = true) :
    quotedFrom quote (n + 1) (.behind read (x :: rest)) =
      (quotedFrom quote (n + 1) (.behind (read ++ [x]) rest)).map (prepend [x]) := by
  cases spans : (Cursor.behind (read ++ [x]) rest).span isOrdinary with
  | mk found c =>
  have longer : (Cursor.behind read (x :: rest)).span isOrdinary = (x :: found, c) := by
    obtain ⟨rfl, rfl⟩ := Prod.mk.inj spans
    simp only [Cursor.span, Cursor.rest_behind, List.takeWhile_cons, ordinary, if_true,
      List.length_cons, Cursor.advance, Cursor.next_behind_cons]
  rw [quotedFrom_succ longer, quotedFrom_succ spans]
  split
  · rfl
  · cases pieceAt quote c with
    | error p => rfl
    | ok piece =>
      simp only [Except.bind]
      cases quotedFrom quote n piece.2 with
      | error p => rfl
      | ok more => simp [Except.map, prepend]

theorem span_isOrdinary (special : isOrdinary x = false) :
    (Cursor.behind read (x :: rest)).span isOrdinary = ([], .behind read (x :: rest)) := by
  simp [Cursor.span, special, Cursor.advance]

theorem quotedFrom_close (special : isOrdinary quote = false)
    (ends : closes quote (.behind read (quote :: rest)) = true) :
    quotedFrom quote (n + 1) (.behind read (quote :: rest)) =
      .ok ([], .behind (read ++ [quote]) rest) := by
  rw [quotedFrom_succ (span_isOrdinary special), if_pos ends, Cursor.next_behind_cons]

theorem quotedFrom_piece {t t' : Text} {c d : Cursor} (special : isOrdinary x = false)
    (inside : closes quote (.behind read (x :: rest)) = false)
    (piece : pieceAt quote (.behind read (x :: rest)) = .ok (t, c))
    (later : quotedFrom quote n c = .ok (t', d)) :
    quotedFrom quote (n + 1) (.behind read (x :: rest)) = .ok (t ++ t', d) := by
  rw [quotedFrom_succ (span_isOrdinary special)]
  simp only [inside, Bool.false_eq_true, if_false, piece, Except.bind, later, List.nil_append]
  rfl

theorem quotedFrom_cons {t : Text} {d : Cursor} (ordinary : isOrdinary x = true)
    (later : quotedFrom quote (n + 1) (.behind (read ++ [x]) rest) = .ok (t, d)) :
    quotedFrom quote (n + 1) (.behind read (x :: rest)) = .ok (x :: t, d) := by
  rw [quotedFrom_ordinary ordinary, later]
  rfl

end Lexeme

/-! ## Double quotes -/

open Lexeme

theorem solid_of_raw {x : CodePoint} (needless : Page.needsEscape x = false) (ink : x ≠ 32) :
    isSeparator x = false ∧ x ≠ 34 ∧ x ≠ 92 := by
  simp [Page.needsEscape] at needless
  simp [isSeparator, isBreak]
  dsimp only [CodePoint] at *
  omega

/-- What does not begin with a space begins with no other blank and with no line break either. -/
theorem DoubleQuoted.solid {column : Nat} {w t : Text} (shows : DoubleQuoted column w t)
    (ink : w.head? ≠ some 32) : BeginsSolid w := by
  intro x head
  cases shows with
  | nil => cases head
  | raw needless other =>
    obtain rfl := Option.some.inj head
    exact (solid_of_raw needless other).1
  | spaces n last => exact absurd rfl ink
  | escape character =>
    obtain rfl := Option.some.inj head
    rfl
  | space =>
    obtain rfl := Option.some.inj head
    rfl
  | fold =>
    obtain rfl := Option.some.inj head
    rfl

theorem blanksBetween_spaces (m : Nat) (read : Text) {rest : Text} (solid : BeginsSolid rest)
    (more : rest ≠ []) :
    blanksBetween (.behind read (List.replicate m 32 ++ rest)) =
      .ok (List.replicate m 32, .behind (read ++ List.replicate m 32) rest) := by
  have blank : ∀ x ∈ List.replicate m 32, isBlankBetween x = true := by
    intro x member
    rw [List.eq_of_mem_replicate member]
    rfl
  obtain ⟨y, rest, rfl⟩ := List.exists_cons_of_ne_nil more
  have ink : isSeparator y = false := solid y rfl
  simp only [isSeparator, Bool.or_eq_false_iff, beq_eq_false_iff_ne] at ink
  obtain ⟨⟨⟨⟨zero, space⟩, tab⟩, -⟩, noBreak⟩ := ink
  have stop : ∀ x ∈ (y :: rest).head?, isBlankBetween x = false := by
    intro x head
    obtain rfl := Option.some.inj head
    simp [isBlankBetween, space, tab]
  have ends : ∀ x ∈ (y :: rest).head?, isBreak x = false := by
    intro x head
    obtain rfl := Option.some.inj head
    exact noBreak
  rw [blanksBetween, Cursor.span_behind _ blank stop]
  simp [Cursor.atEnd, zero, Cursor.lineBreak?_eq_none _ ends]

theorem DoubleQuoted.quotedFrom_eq {column : Nat} {w t : Text} (shows : DoubleQuoted column w t)
    (indented : 0 < column) (read rest : Text) {n : Nat} (fuel : w.length < n) :
    quotedFrom 34 n (.behind read (w ++ 34 :: rest)) =
      .ok (t, .behind (read ++ w ++ [34]) rest) := by
  induction shows generalizing read n with
  | nil =>
    obtain ⟨n, rfl⟩ := Nat.exists_eq_add_of_lt fuel
    rw [List.append_nil]
    exact quotedFrom_close (by decide) rfl
  | @raw x w t needless ink shows ih =>
    obtain ⟨n, rfl⟩ := Nat.exists_eq_add_of_lt fuel
    obtain ⟨solid, quote, backslash⟩ := solid_of_raw needless ink
    have read_eq : read ++ x :: w ++ [34] = read ++ [x] ++ w ++ [34] := by simp
    rw [read_eq, List.cons_append]
    by_cases single : x = 39
    · subst single
      refine quotedFrom_piece (x := 39) (t := [39]) (by decide) rfl rfl ?_
      rw [Cursor.next_behind_cons]
      exact ih (read ++ [39]) (by simp only [List.length_cons]; omega)
    · have ordinary : isOrdinary x = true := by
        simp [isOrdinary, solid, text, quote, backslash, single]
      exact quotedFrom_cons ordinary (ih _ (by simp only [List.length_cons]; omega))
  | @spaces m w t last shows ih =>
    obtain ⟨n, rfl⟩ := Nat.exists_eq_add_of_lt fuel
    have solid : BeginsSolid (w ++ 34 :: rest) := by
      cases w with
      | nil => exact fun x head => Option.some.inj head ▸ rfl
      | cons x w => exact shows.solid last
    have blanks := blanksBetween_spaces (m + 1) read solid (by simp)
    rw [List.append_assoc]
    refine quotedFrom_piece (by decide) rfl blanks ?_
    rw [← List.append_assoc read]
    refine ih _ ?_
    simp only [List.length_append, List.length_replicate]
    omega
  | @escape x w t character shows ih =>
    obtain ⟨n, rfl⟩ := Nat.exists_eq_add_of_lt fuel
    have piece := escapeSequence_escape read (w ++ 34 :: rest) character
    rw [List.append_assoc]
    refine quotedFrom_piece (t := [x]) (by decide) rfl piece ?_
    rw [← List.append_assoc read]
    refine ih _ ?_
    simp only [List.length_append, Page.escape, List.length_cons]
    omega
  | @space w t shows ih =>
    obtain ⟨n, rfl⟩ := Nat.exists_eq_add_of_lt fuel
    have read_eq : read ++ 92 :: 32 :: w ++ [34] = read ++ [92, 32] ++ w ++ [34] := by simp
    rw [read_eq]
    refine quotedFrom_piece (t := [32]) (by decide) rfl escapeSequence_space ?_
    exact ih _ (by simp only [List.length_cons]; omega)
  | @fold w t ink shows ih =>
    obtain ⟨n, rfl⟩ := Nat.exists_eq_add_of_lt fuel
    have solid : BeginsSolid (w ++ 34 :: rest) := by
      cases w with
      | nil => exact fun x head => Option.some.inj head ▸ rfl
      | cons x w => exact shows.solid ink
    have piece := escapeSequence_newLine read indented fun x head =>
      isBlankBetween_of_solid (solid x head)
    rw [List.append_assoc]
    refine quotedFrom_piece (t := []) (by decide) rfl piece ?_
    rw [← List.append_assoc read]
    refine ih _ ?_
    simp only [List.length_append, List.length_cons]
    omega

/-- What stands between double quotes is read as the text that it stands for. -/
theorem DoubleQuoted.quoted_eq {column : Nat} {w t : Text} (shows : DoubleQuoted column w t)
    (indented : 0 < column) (read rest : Text) :
    quoted 34 (.behind read (34 :: w ++ 34 :: rest)) =
      .ok (t, .behind (read ++ (34 :: w ++ [34])) rest) := by
  have fuel : w.length < (34 :: w ++ 34 :: rest).length + 1 := by
    simp only [List.length_append, List.length_cons]
    omega
  have found := shows.quotedFrom_eq indented (read ++ [34]) rest fuel
  rw [quoted, List.cons_append, Cursor.next_behind_cons]
  simpa using found

/-! ## Line breaks between quotes -/

theorem blanksBetween_breaks {column : Nat} {b : CodePoint} {bs : Text} (read : Text) {rest : Text}
    (ends : ∀ x ∈ b :: bs, isBreak x = true ∧ x ≠ 0x85)
    (outside : (Cursor.behind (read ++ b :: bs) (List.replicate column 32 ++ rest)).atDocument =
      false)
    (solid : BeginsSolid rest) :
    blanksBetween (.behind read (b :: bs ++ (List.replicate column 32 ++ rest))) =
      .ok (folded b bs, .behind (read ++ (b :: bs ++ List.replicate column 32)) rest) := by
  obtain ⟨break_b, other⟩ := ends b List.mem_cons_self
  have nonzero : b ≠ 0 := by
    rintro rfl
    cases break_b
  have blank : (Cursor.behind read (b :: bs ++ (List.replicate column 32 ++ rest))).span
      isBlankBetween = ([], .behind read (b :: bs ++ (List.replicate column 32 ++ rest))) := by
    simp [Cursor.span, isBlankBetween_of_isBreak b break_b, Cursor.advance]
  have passed : Breaks.from isBlankBetween ((bs ++ (List.replicate column 32 ++ rest)).length + 1)
      (.behind (read ++ [b]) (bs ++ (List.replicate column 32 ++ rest))) = _ :=
    Breaks.from_behind bs rfl isBlankBetween_of_isBreak
      (fun x head => isBlankBetween_of_solid (solid x head))
      (fun x member => ends x (List.mem_cons_of_mem b member))
      (by simp only [List.length_append]; omega) (by simpa using outside)
  rw [blanksBetween, blank]
  simp only [Cursor.atEnd, List.cons_append, Cursor.peek_behind_cons,
    beq_eq_false_iff_ne.mpr nonzero,
    Bool.false_eq_true, if_false, Cursor.lineBreak?_behind_cons break_b, if_neg other,
    Cursor.rest_behind, passed]
  simp

/-- Line breaks and the spaces behind them come to what folding makes of them. -/
theorem quotedFrom_breaks {quote : CodePoint} {column n : Nat} {b : CodePoint}
    {bs t read rest : Text} {d : Cursor} (mark : isBreak quote = false)
    (ends : ∀ x ∈ b :: bs, isBreak x = true ∧ x ≠ 0x85)
    (outside : (Cursor.behind (read ++ b :: bs) (List.replicate column 32 ++ rest)).atDocument =
      false)
    (solid : BeginsSolid rest)
    (later : quotedFrom quote n
      (.behind (read ++ (b :: bs ++ List.replicate column 32)) rest) = .ok (t, d)) :
    quotedFrom quote (n + 1) (.behind read (b :: bs ++ (List.replicate column 32 ++ rest))) =
      .ok (folded b bs ++ t, d) := by
  have break_b := (ends b List.mem_cons_self).1
  have other {x : CodePoint} (noBreak : isBreak x = false) : b ≠ x := by
    rintro rfl
    cases break_b.symm.trans noBreak
  have separates : isSeparator b = true := by simp [isSeparator, break_b]
  refine quotedFrom_piece (by simp [isOrdinary, separates]) (by simp [closes, other mark]) ?_ later
  have piece := blanksBetween_breaks read ends outside solid
  have single : b ≠ 39 := other rfl
  have backslash : b ≠ 92 := other rfl
  simpa [pieceAt, single, backslash, separates] using piece

/-! ## Single quotes -/

theorem BeginsSolid.append_quote {w : Text} (solid : BeginsSolid w) (rest : Text) :
    BeginsSolid (w ++ 39 :: rest) := by
  cases w with
  | nil => exact fun x head => Option.some.inj head ▸ rfl
  | cons x w => exact solid

theorem SingleQuoted.quotedFrom_eq {column : Nat} {w t : Text} (shows : SingleQuoted column w t)
    (indented : 0 < column) (read : Text) {rest : Text} (last : rest.head? ≠ some 39) {n : Nat}
    (fuel : w.length < n) :
    quotedFrom 39 n (.behind read (w ++ 39 :: rest)) =
      .ok (t, .behind (read ++ w ++ [39]) rest) := by
  induction shows generalizing read n with
  | nil =>
    obtain ⟨n, rfl⟩ := Nat.exists_eq_add_of_lt fuel
    have ends : closes 39 (.behind read (39 :: rest)) = true := by
      rcases rest with _ | ⟨y, rest⟩
      · rfl
      · have other : y ≠ 39 := fun same => last (congrArg some same)
        simp [closes, Cursor.peekAt_behind, other]
    rw [List.append_nil]
    exact quotedFrom_close (by decide) ends
  | @raw x w t plain ink other shows ih =>
    obtain ⟨n, rfl⟩ := Nat.exists_eq_add_of_lt fuel
    have read_eq : read ++ x :: w ++ [39] = read ++ [x] ++ w ++ [39] := by simp
    have shorter : w.length < w.length + n + 1 + 1 := by omega
    rw [read_eq, List.cons_append]
    by_cases ordinary : isOrdinary x = true
    · exact quotedFrom_cons ordinary (ih _ (by simp only [List.length_cons]; omega))
    · have piece : pieceAt 39 (.behind read (x :: (w ++ 39 :: rest))) =
          .ok ([x], .behind (read ++ [x]) (w ++ 39 :: rest)) := by
        simp [pieceAt, other, ink]
      refine quotedFrom_piece (t := [x]) (Bool.eq_false_iff.mpr ordinary) ?_ piece ?_
      · simp [closes, other]
      · exact ih _ (by simp only [List.length_cons]; omega)
  | @quote w t shows ih =>
    obtain ⟨n, rfl⟩ := Nat.exists_eq_add_of_lt fuel
    have read_eq : read ++ 39 :: 39 :: w ++ [39] = read ++ [39, 39] ++ w ++ [39] := by simp
    have piece : pieceAt 39 (.behind read (39 :: 39 :: (w ++ 39 :: rest))) =
        .ok ([39], .behind (read ++ [39, 39]) (w ++ 39 :: rest)) :=
      congrArg (fun c => Except.ok ([39], c)) (Cursor.advance_behind [39, 39])
    rw [read_eq]
    refine quotedFrom_piece (t := [39]) (by decide) rfl piece ?_
    exact ih _ (by simp only [List.length_cons]; omega)
  | @spaces m w t solid shows ih =>
    obtain ⟨n, rfl⟩ := Nat.exists_eq_add_of_lt fuel
    have blanks := blanksBetween_spaces (m + 1) read (solid.append_quote rest) (by simp)
    rw [List.append_assoc]
    refine quotedFrom_piece (by decide) rfl blanks ?_
    rw [← List.append_assoc read]
    refine ih _ ?_
    simp only [List.length_append, List.length_replicate]
    omega
  | @fold w t solid shows ih =>
    obtain ⟨n, rfl⟩ := Nat.exists_eq_add_of_lt fuel
    have single : ∀ x ∈ [10], isBreak x = true ∧ x ≠ 0x85 :=
      List.forall_mem_singleton.mpr ⟨rfl, by decide⟩
    have later := ih (read ++ newLine column) (n := (newLine column ++ w).length + n)
      (by simp only [List.length_append, newLine, List.length_cons]; omega)
    rw [List.append_assoc, ← List.append_assoc read]
    exact quotedFrom_breaks rfl single (Cursor.atDocument_spaces indented)
      (solid.append_quote rest) later
  | @breaks b bs w t ends solid shows ih =>
    obtain ⟨n, rfl⟩ := Nat.exists_eq_add_of_lt fuel
    -- The first of several line breaks does not count if it is a line feed, hence one more of them.
    have piece (c : CodePoint) (cs : Text) (ends' : ∀ x ∈ c :: cs, isBreak x = true ∧ x ≠ 0x85)
        (m : Nat) (more : w.length < m) :=
      quotedFrom_breaks rfl ends' (Cursor.atDocument_spaces indented) (solid.append_quote rest)
        (ih (read ++ (c :: cs ++ List.replicate column 32)) more)
    by_cases feed : b = 10
    · subst feed
      have counted :=
        piece 10 (10 :: bs) (List.forall_mem_cons.mpr ⟨ends 10 List.mem_cons_self, ends⟩)
        (([10] ++ (10 :: bs) ++ (List.replicate column 32 ++ w)).length + n)
        (by simp only [List.length_append, List.length_cons]; omega)
      simpa [folded] using counted
    · have counted := piece b bs ends
        (([] ++ (b :: bs) ++ (List.replicate column 32 ++ w)).length + n)
        (by simp only [List.length_append, List.length_cons]; omega)
      simpa [folded, feed] using counted

/-- What stands between single quotes is read as the text that it stands for. -/
theorem SingleQuoted.quoted_eq {column : Nat} {w t : Text} (shows : SingleQuoted column w t)
    (indented : 0 < column) (read rest : Text) (last : rest.head? ≠ some 39) :
    quoted 39 (.behind read (39 :: w ++ 39 :: rest)) =
      .ok (t, .behind (read ++ (39 :: w ++ [39])) rest) := by
  have fuel : w.length < (39 :: w ++ 39 :: rest).length + 1 := by
    simp only [List.length_append, List.length_cons]
    omega
  have found := shows.quotedFrom_eq indented (read ++ [39]) last fuel
  rw [quoted, List.cons_append, Cursor.next_behind_cons]
  simpa using found

end SwaggerDoc.Yaml
