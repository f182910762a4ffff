import Mathlib.Algebra.Group.Nat.Defs
import SwaggerDoc.Proofs.Yaml.Explained
import SwaggerDoc.Proofs.Yaml.Integers
import SwaggerDoc.Yaml.Token

/-!
Numbers in the spelling of a text that are too large.

Where a text has no further token it is not well formed, with two exceptions (`Misspelt`): an escape
can be for a number that no character has, and the version in front of a document can be a number of
too many digits. Reading never leaves the text (`Cursor.Within`), so what stops it is there
(`misspelt_of_problem`).
-/

namespace SwaggerDoc.Yaml

/-- The text has an escape of eight digits for the character with a number. -/
def EscapesTo (t : Text) (n : Nat) : Prop :=
  ∃ digits values, 92 :: 85 :: digits <:+: t ∧ digits.length = 8 ∧
    digits.mapM Text.hexValue? = some values ∧ values.foldl (fun n d => n * 16 + d) 0 = n

/-- The text has a line about its version with a number of more digits than are read. -/
def HasLongVersion (t : Text) : Prop :=
  ∃ front digits, text "%YAML" ++ front ++ digits <:+: t ∧
    (∀ x ∈ front, x = 32 ∨ x = 46 ∨ Text.isDigit x = true) ∧
    (∀ x ∈ digits, Text.isDigit x = true) ∧ Literal.longest < digits.length

/-- Why a text is not read although it may be well formed. -/
inductive Misspelt (t : Text) : Fault → Prop where
  /-- There is no character with the number of an escape. -/
  | noCharacter {n : Nat} (escape : EscapesTo t n) (beyond : 0x110000 ≤ n)
    (bounded : n < 0x80000000) : Misspelt t .badValue
  /-- The number of an escape is larger than any number of a character could be. -/
  | noNumber {n : Nat} (escape : EscapesTo t n) (beyond : 0x80000000 ≤ n) : Misspelt t .tooLarge
  | version (long : HasLongVersion t) : Misspelt t .badValue

namespace Cursor

variable {t : Text} {c d : Cursor}

/-- The place is one in the text. -/
def Within (t : Text) (c : Cursor) : Prop := c.rest <:+ t

theorem rest_next (c : Cursor) : c.next.rest = c.rest.drop 1 := by
  unfold next
  split
  · next none => simp [none]
  · next x rest some =>
    rw [some]
    split <;> rfl

theorem peek_next (c : Cursor) : c.next.peek = c.peekAt 1 := by
  simp [peek, peekAt, rest_next]

theorem rest_advance (c : Cursor) (n : Nat) : (c.advance n).rest = c.rest.drop n := by
  induction n generalizing c with
  | zero => rfl
  | succ n ih => rw [advance, ih, rest_next, List.drop_drop, Nat.add_comm]

/-- What a place has in front of it is the characters that pass a test, then the others. -/
theorem rest_span (p : CodePoint → Bool) (c : Cursor) :
    (c.span p).1 ++ (c.span p).2.rest = c.rest := by
  rw [span, rest_advance]
  exact List.prefix_iff_eq_append.mp (List.takeWhile_prefix p)

namespace Within

theorem advance (inside : c.Within t) (n : Nat) : (c.advance n).Within t := by
  rw [Within, rest_advance]
  exact (List.drop_suffix n c.rest).trans inside

theorem next (inside : c.Within t) : c.next.Within t := inside.advance 1

theorem span (inside : c.Within t) (p : CodePoint → Bool) : (c.span p).2.Within t :=
  inside.advance _

theorem skip (inside : c.Within t) (p : CodePoint → Bool) : (c.skip p).Within t := inside.span p

theorem skipSpaces (inside : c.Within t) : c.skipSpaces.Within t := inside.skip _

theorem skipSpacesTo (inside : c.Within t) (column : Nat) : (c.skipSpacesTo column).Within t :=
  inside.advance _

theorem skipComment (inside : c.Within t) : c.skipComment.Within t := by
  unfold Cursor.skipComment
  split
  · exact inside.skip _
  · exact inside

theorem lineBreak? {b : CodePoint} (inside : c.Within t) (found : c.lineBreak? = some (b, d)) :
    d.Within t := by
  simp only [Cursor.lineBreak?, Option.ite_none_right_eq_some, Option.some.injEq,
    Prod.mk.injEq] at found
  exact found.2.2 ▸ inside.next

/-- What stands in front of a place is part of the text. -/
theorem infix_of_append {u v : Text} (inside : c.Within t) (there : u ++ v = c.rest) : u <:+: t :=
  (there ▸ List.prefix_append u v).isInfix.trans inside.isInfix

end Within

/-- The character in front of a place, if there is one. -/
theorem rest_eq_cons {x : CodePoint} (there : c.peek = x) (some : x ≠ 0) :
    x :: c.next.rest = c.rest := by
  rw [rest_next]
  cases rest : c.rest with
  | nil => simp [peek, peekAt, rest, some.symm] at there
  | cons y rest' =>
    simp only [peek, peekAt, rest, List.getD_cons_zero] at there
    rw [there, List.drop_succ_cons, List.drop_zero]

theorem skipLine_explained {causes : Fault → Prop} (inside : c.Within t) :
    Explained causes (Within t) c.skipLine := by
  unfold skipLine
  dsimp only
  split
  · have behind : c.skipSpaces.skipComment.Within t := inside.skipSpaces.skipComment
    cases found : c.skipSpaces.skipComment.lineBreak? with
    | none => exact behind
    | some r => exact behind.lineBreak? found
  · exact .malformed

theorem within_breaks (isGap : CodePoint → Bool) (n : Nat) (inside : c.Within t) :
    (Breaks.from isGap n c).cursor.Within t := by
  induction n generalizing c with
  | zero => exact inside
  | succ n ih =>
    unfold Breaks.from
    split
    · exact inside
    · cases found : (c.skip isGap).lineBreak? with
      | none => simpa only [found] using inside.skip isGap
      | some r =>
        simp only [found]
        exact ih ((inside.skip isGap).lineBreak? found)

end Cursor

/-! ## The parts of tokens -/

namespace Lexeme

variable {t : Text} {c : Cursor} {causes : Fault → Prop}

/-- A part of a token is read inside the text, and a fault has a cause in the text. -/
abbrev Reads {α : Type} (t : Text) (r : Except Problem (α × Cursor)) : Prop :=
  Explained (Misspelt t) (fun r => r.2.Within t) r

section Blocks

theorem within_announced {α : Type} (read : CodePoint → Option α) (inside : c.Within t) :
    (announced read c).2.Within t := by
  unfold announced
  split
  · exact inside.next
  · exact inside

theorem reads_blockHeader (inside : c.Within t) : Reads t (blockHeader c) := by
  have first := within_announced ending? inside
  unfold blockHeader
  split
  next before d found =>
  rw [found] at first
  have second := within_announced indentation? first
  split
  next indentation e found' =>
  rw [found'] at second
  split
  next behind f found'' =>
  have third : f.Within t := by
    split at found''
    · cases found''
      exact second
    · have there := within_announced ending? second
      rwa [found''] at there
  dsimp only
  split
  · exact .malformed_bind
  · exact (Cursor.skipLine_explained third).bind fun d there => there

theorem within_blockBreaks (column n : Nat) (inside : c.Within t) :
    (blockBreaks column n c).2.Within t := by
  induction n generalizing c with
  | zero => exact inside
  | succ n ih =>
    unfold blockBreaks
    dsimp only
    split
    · exact inside.skipSpacesTo column
    · next b d found => exact ih ((inside.skipSpacesTo column).lineBreak? found)

theorem within_leadingBreaks (n : Nat) (inside : c.Within t) :
    (leadingBreaks n c).2.2.Within t := by
  induction n generalizing c with
  | zero => exact inside
  | succ n ih =>
    unfold leadingBreaks
    dsimp only
    split
    · exact inside.skipSpaces
    · next b d found => exact ih (inside.skipSpaces.lineBreak? found)

theorem within_blockLines (folds : Bool) (column n : Nat) (last passed : Text)
    (inside : c.Within t) : (blockLines folds column n last passed c).cursor.Within t := by
  induction n generalizing c last passed with
  | zero => exact inside
  | succ n ih =>
    unfold blockLines
    split
    · exact inside
    · dsimp only
      refine ih _ _ (within_blockBreaks _ _ ?_)
      have behind := inside.span (!Cursor.endsLine ·)
      split
      · next b d found => exact behind.lineBreak? found
      · exact behind

theorem reads_block (folds : Bool) (margin : Nat) (inside : c.Within t) :
    Reads t (block folds margin c) := by
  refine (reads_blockHeader inside).bind fun ⟨header, d⟩ behind => ?_
  dsimp only at behind ⊢
  split
  · exact within_blockLines _ _ _ _ _ (within_blockBreaks _ _ behind)
  · exact within_blockLines _ _ _ _ _ (within_leadingBreaks _ behind)

end Blocks

section Plain

theorem within_plainGap (inside : c.Within t) : (plainGap c).cursor.Within t := by
  have behind := inside.span (· == 32)
  unfold plainGap
  dsimp only
  split
  · exact behind
  · next first d found => exact Cursor.within_breaks _ _ (behind.lineBreak? found)

theorem within_plainFrom (flow : Bool) (margin n : Nat) {gap : Plain}
    (inside : gap.cursor.Within t) : (plainFrom flow margin n gap).cursor.Within t := by
  induction n generalizing gap with
  | zero => exact inside
  | succ n ih =>
    unfold plainFrom
    dsimp only
    generalize (if gap.cursor.peek = 35 then [] else plainWord flow gap.cursor.rest) = word
    split
    · exact inside
    · have next := within_plainGap (inside.advance word.length)
      split
      · exact next
      · exact ih next

theorem within_plain (flow : Bool) (margin : Nat) (inside : c.Within t) :
    (plain flow margin c).cursor.Within t :=
  within_plainFrom flow margin _ inside

end Plain

section Properties

theorem reads_anchorName (inside : c.Within t) : Reads t (anchorName c) := by
  unfold anchorName
  dsimp only
  split
  · exact .malformed
  · exact inside.span _

theorem unescaped_explained (octets : Octets) (n : Nat) (u : Text) :
    Explained causes (fun _ => True) (unescaped octets n u) := by
  induction n generalizing octets u with
  | zero => exact .malformed
  | succ n ih =>
    unfold unescaped
    split
    · split
      · exact ih _ _
      · exact .malformed
    · split
      · dsimp only
        split
        · exact trivial
        · exact .malformed
      · dsimp only
        split
        · exact (ih [] _).bind fun _ _ => trivial
        · exact .malformed

theorem reads_tagRest (inside : c.Within t) : Reads t (tagRest c) := by
  unfold tagRest
  dsimp only
  split
  · exact .malformed_bind
  · exact (unescaped_explained _ _ _).bind fun _ _ => inside.span _

theorem reads_tagHandle (inside : c.Within t) : Reads t (tagHandle c) := by
  unfold tagHandle
  split
  · exact .malformed
  · split
    · exact inside.next
    · dsimp only
      split
      · exact (inside.next.span _).next
      · exact .malformed

theorem reads_tagName (inside : c.Within t) : Reads t (tagName c) := by
  have finish {name : TagName} {d : Cursor} (behind : d.Within t) :
      Reads t (if Cursor.endsWord d.peek then Pure.pure (name, d) else throw .malformed) := by
    split
    · exact behind
    · exact .malformed
  unfold tagName
  dsimp only
  split
  · refine (reads_tagRest (inside.advance 2)).bind fun ⟨rest, d⟩ behind => ?_
    dsimp only
    split
    · exact .malformed_bind
    · exact finish (Cursor.Within.next behind)
  · split
    · exact finish inside.next
    · split
      · refine (reads_tagHandle inside).bind fun ⟨handle, d⟩ behind => ?_
        exact (reads_tagRest behind).bind fun ⟨rest, e⟩ behind' => finish behind'
      · exact (reads_tagRest inside.next).bind fun ⟨rest, d⟩ behind => finish behind

/-- A number is refused only for its length. -/
theorem number_explained (c : Cursor) :
    Explained
      (fun f => f = .badValue ∧ ∃ digits rest, digits ++ rest = c.rest ∧
        (∀ x ∈ digits, Text.isDigit x = true) ∧ Literal.longest < digits.length)
      (fun r => ∃ digits, digits ++ r.2.rest = c.rest ∧ ∀ x ∈ digits, Text.isDigit x = true)
      (number c) := by
  have digits : ∀ x ∈ (c.span Text.isDigit).1, Text.isDigit x = true :=
    List.all_eq_true.mp List.all_takeWhile
  have parts := Cursor.rest_span Text.isDigit c
  unfold number
  dsimp only
  split
  · exact .malformed
  · next some =>
    split
    · exact ⟨_, parts, digits⟩
    · next unread =>
      refine ⟨rfl, _, _, parts, digits, Nat.lt_of_not_le fun short => ?_⟩
      have read := integer?_of_digits (by simpa using some)
        (fun x member => Text.isDigit_iff.mp (digits x member)) short
      rw [read] at unread
      cases unread

section Version

variable {d e : Cursor}

/-- Behind the name of the line about the version and some characters of the version. -/
structure InVersion (t : Text) (c : Cursor) : Prop where
  within : c.Within t
  front : ∃ front : Text, text "%YAML" ++ front ++ c.rest <:+ t ∧
    ∀ x ∈ front, x = 32 ∨ x = 46 ∨ Text.isDigit x = true

theorem InVersion.pass (there : InVersion t c) {part : Text} (parts : part ++ d.rest = c.rest)
    (kind : ∀ x ∈ part, x = 32 ∨ x = 46 ∨ Text.isDigit x = true) : InVersion t d := by
  obtain ⟨within, front, behind, kinds⟩ := there
  rw [← parts, ← List.append_assoc, List.append_assoc _ front] at behind
  refine ⟨(List.suffix_append part d.rest).trans (parts ▸ within), front ++ part, behind, ?_⟩
  intro x member
  rcases List.mem_append.mp member with before | here
  · exact kinds x before
  · exact kind x here

/-- A number of the version that is refused is too long. -/
theorem number_of_inVersion (there : InVersion t c) :
    Explained (Misspelt t) (fun r => InVersion t r.2) (number c) := by
  refine (number_explained c).mono ?_ ?_
  · rintro f ⟨rfl, digits, rest, parts, all, long⟩
    obtain ⟨-, front, behind, kinds⟩ := there
    refine .version ⟨front, digits, ?_, kinds, all, long⟩
    rw [← parts, ← List.append_assoc] at behind
    exact (List.prefix_append _ rest).isInfix.trans behind.isInfix
  · rintro ⟨n, d⟩ ⟨digits, parts, all⟩
    exact there.pass parts fun x member => .inr (.inr (all x member))

end Version

/-- A directive is read inside the text from behind its mark. -/
theorem reads_directive (inside : 37 :: c.rest <:+ t) : Reads t (directive c) := by
  have within : c.Within t := (List.suffix_cons 37 c.rest).trans inside
  have behind := within.span isNameCharacter
  have finish {d : Directive} {e : Cursor} (there : e.Within t) :
      Reads t (do return (d, ← e.skipLine)) :=
    (Cursor.skipLine_explained there).bind fun _ after => after
  unfold directive
  dsimp only
  split
  · exact .malformed_bind
  · split
    · next version =>
      have named : InVersion t (c.span isNameCharacter).2 := by
        refine ⟨behind, [], ?_, List.forall_mem_nil _⟩
        have parts := Cursor.rest_span isNameCharacter c
        rw [version] at parts
        have same : text "%YAML" ++ (c.span isNameCharacter).2.rest = 37 :: c.rest := by
          rw [← parts]
          rfl
        rw [List.append_nil, same]
        exact inside
      have spaces : InVersion t (c.span isNameCharacter).2.skipSpaces :=
        named.pass (Cursor.rest_span _ _) fun x member => .inl (by
          simpa using List.all_eq_true.mp List.all_takeWhile x member)
      refine (number_of_inVersion spaces).bind fun ⟨major, d⟩ number => ?_
      dsimp only
      split
      · exact .malformed_bind
      · next point =>
        have point : [46] ++ d.next.rest = d.rest :=
          Cursor.rest_eq_cons (by simpa using point) (by decide)
        have further : InVersion t d.next :=
          number.pass point fun x member => .inr (.inl (List.mem_singleton.mp member))
        refine (number_of_inVersion further).bind fun ⟨minor, e⟩ number => ?_
        dsimp only
        split
        · exact .malformed_bind
        · exact finish number.within
    · split
      · refine (reads_tagHandle behind.skipSpaces).bind fun ⟨handle, d⟩ after => ?_
        dsimp only
        split
        · exact .malformed_bind
        · refine (reads_tagRest (Cursor.Within.skipSpaces after)).bind fun ⟨path, e⟩ after' => ?_
          dsimp only
          split
          · exact .malformed_bind
          · exact finish after'
      · rw [pure_bind]
        exact finish (behind.skip _)

end Properties

section Quoted

theorem hexValue?_lt {x v : Nat} (value : Text.hexValue? x = some v) : v < 16 := by
  simp only [Text.hexValue?, Bool.and_eq_true, decide_eq_true_eq] at value
  dsimp only [CodePoint] at value
  split at value
  · cases value
    omega
  · split at value
    · cases value
      omega
    · split at value
      · cases value
        omega
      · cases value

/-- Hexadecimal digits have a value each, and write a number below the power of the base. -/
theorem hexNumber_lt {digits : Text} {values : List Nat}
    (read : digits.mapM Text.hexValue? = some values) (front : Nat) :
    values.length = digits.length ∧
      values.foldl (fun n d => n * 16 + d) front < (front + 1) * 16 ^ digits.length := by
  induction digits generalizing values front with
  | nil =>
    cases read
    simp
  | cons x digits ih =>
    rw [List.mapM_cons] at read
    obtain ⟨v, first, read⟩ := Option.bind_eq_some_iff.mp read
    obtain ⟨others, later, read⟩ := Option.bind_eq_some_iff.mp read
    cases read
    have small := hexValue?_lt first
    obtain ⟨length, bound⟩ := ih later (front * 16 + v)
    refine ⟨congrArg (· + 1) length, ?_⟩
    calc (v :: others).foldl (fun n d => n * 16 + d) front
        < (front * 16 + v + 1) * 16 ^ digits.length := bound
      _ ≤ (front + 1) * 16 * 16 ^ digits.length := Nat.mul_le_mul_right _ (by omega)
      _ = (front + 1) * 16 ^ (x :: digits).length := by
        rw [List.length_cons, Nat.pow_succ, Nat.mul_assoc, Nat.mul_comm 16]

/-- Only a number of eight digits can be that of no character. -/
theorem numbered_explained {digits : Text} {values : List Nat} {letter : CodePoint} {count : Nat}
    (announced : escapedDigits? letter = some count) (length : digits.length = count)
    (read : digits.mapM Text.hexValue? = some values)
    (there : letter = 85 → 92 :: 85 :: digits <:+: t) :
    Explained (Misspelt t) (fun _ => True)
      (numbered (values.foldl (fun n d => n * 16 + d) 0)) := by
  have bound := (hexNumber_lt read 0).2
  rw [length] at bound
  have escape (eight : letter = 85 ∧ count = 8) :
      EscapesTo t (values.foldl (fun n d => n * 16 + d) 0) :=
    ⟨digits, values, there eight.1, length.trans eight.2, read, rfl⟩
  have eight (beyond : 0x110000 ≤ values.foldl (fun n d => n * 16 + d) 0) :
      letter = 85 ∧ count = 8 := by
    unfold escapedDigits? at announced
    split at announced
    · cases announced
      omega
    · split at announced
      · cases announced
        omega
      · split at announced
        · next letter =>
          cases announced
          exact ⟨letter, rfl⟩
        · cases announced
  unfold numbered
  split
  · exact trivial
  · next beyond =>
    have beyond := Nat.le_of_not_lt beyond
    split
    · next bounded => exact .noCharacter (escape (eight beyond)) beyond bounded
    · next unbounded => exact .noNumber (escape (eight beyond)) (Nat.le_of_not_lt unbounded)

theorem reads_escapeSequence (inside : c.Within t) (backslash : c.peek = 92) :
    Reads t (escapeSequence c) := by
  unfold escapeSequence
  dsimp only
  split
  · exact inside.advance 2
  · next count none announced =>
    split
    · next values read =>
      split
      · exact .malformed
      · next enough =>
        have length : ((c.rest.drop 2).take count).length = count := by
          have found := (hexNumber_lt read 0).1
          have short := List.length_take_le count (c.rest.drop 2)
          omega
        refine (numbered_explained announced length read fun letter => ?_).bind fun x _ =>
          inside.advance _
        have first : 92 :: c.next.rest = c.rest := Cursor.rest_eq_cons backslash (by decide)
        have second : 85 :: c.next.next.rest = c.next.rest :=
          Cursor.rest_eq_cons ((Cursor.peek_next c).trans letter) (by decide)
        have third : c.rest.drop 2 = c.next.next.rest := by
          rw [Cursor.rest_next, Cursor.rest_next, List.drop_drop]
        refine inside.infix_of_append (?_ : _ ++ (c.rest.drop 2).drop count = c.rest)
        rw [List.cons_append, List.cons_append, List.take_append_drop, third, second, first]
    · exact .malformed
  · split
    · next b d found =>
      split
      · exact .malformed
      · exact Cursor.within_breaks _ _ (inside.next.lineBreak? found)
    · exact .malformed

theorem reads_blanksBetween (inside : c.Within t) : Reads t (blanksBetween c) := by
  unfold blanksBetween
  dsimp only
  split
  · exact .malformed
  · split
    · exact inside.span _
    · next first d found =>
      split
      · exact .malformed
      · exact Cursor.within_breaks _ _ ((inside.span _).lineBreak? found)

theorem reads_quotedFrom (quote : CodePoint) (n : Nat) (inside : c.Within t) :
    Reads t (quotedFrom quote n c) := by
  induction n generalizing c with
  | zero => exact .malformed
  | succ n ih =>
    have behind := inside.span isOrdinary
    have goOn {found : Text} {r : Except Problem (Text × Cursor)} (part : Reads t r) :
        Reads t (do
          let x ← r
          let y ← quotedFrom quote n x.2
          return (found ++ x.1 ++ y.1, y.2)) :=
      part.bind fun x after => (ih after).bind fun y after => after
    unfold quotedFrom
    dsimp only
    split
    · exact behind.next
    · split
      · exact goOn (behind.advance 2)
      · split
        · next escape =>
          have backslash : (c.span isOrdinary).2.peek = 92 :=
            of_decide_eq_true (Bool.and_eq_true_iff.mp escape).1
          exact goOn (reads_escapeSequence behind backslash)
        · split
          · exact goOn (reads_blanksBetween behind)
          · exact goOn behind.next

theorem reads_quoted (quote : CodePoint) (inside : c.Within t) : Reads t (quoted quote c) :=
  reads_quotedFrom quote _ inside.next

end Quoted

end Lexeme

/-! ## Tokens -/

namespace Scan

variable {t : Text} {s : Scan}

/-- A scan goes on inside the text, and a fault has a cause in the text. -/
abbrev Goes (t : Text) (r : Except Problem Scan) : Prop :=
  Explained (Misspelt t) (fun s => s.cursor.Within t) r

/-- A scan stays where it is, or the text is not well formed. -/
abbrev Stays (s : Scan) (r : Except Problem Scan) : Prop :=
  Explained (fun _ => False) (fun s' => s'.cursor = s.cursor) r

theorem Stays.bind {r : Except Problem Scan} (stays : Stays s r) {f : Scan → Except Problem Scan}
    (later : ∀ s', s'.cursor = s.cursor → Goes t (f s')) : Goes t (r >>= f) :=
  Explained.bind (Explained.mono stays (fun _ => False.elim) fun _ same => same) later

theorem stays_dropCandidate (s : Scan) : s.Stays s.dropCandidate := by
  unfold dropCandidate
  split
  · exact .malformed
  · exact .ok rfl

theorem stays_proposeKey (s : Scan) : s.Stays s.proposeKey := by
  unfold proposeKey
  split
  · exact Explained.bind (stays_dropCandidate s) fun _ same => same
  · exact .ok rfl

theorem cursor_closeAll (s : Scan) : s.closeAll.cursor = s.cursor := by
  unfold closeAll
  split <;> rfl

theorem stays_closeAll (s : Scan) : s.Stays s.closeAll.dropCandidate :=
  (stays_dropCandidate s.closeAll).mono (fun _ => id) fun _ same => same.trans s.cursor_closeAll

theorem cursor_openBlock (s : Scan) (column : Nat) : (s.openBlock column).1.cursor = s.cursor := by
  unfold openBlock
  split <;> rfl

theorem stays_openBlockHere (s : Scan) (token : Token) : s.Stays (s.openBlockHere token) := by
  unfold openBlockHere
  split
  · exact .ok rfl
  · split
    · exact .malformed
    · refine .ok ?_
      have same := s.cursor_openBlock s.cursor.column
      dsimp only
      split <;> exact same

theorem within_passBlanks (n : Nat) (inside : s.cursor.Within t) :
    (passBlanks n s).cursor.Within t := by
  induction n generalizing s with
  | zero => exact inside
  | succ n ih =>
    have behind := inside.skipSpaces.skipComment
    unfold passBlanks
    dsimp only
    split
    · exact behind
    · next b c found => exact ih (behind.lineBreak? found)

theorem stays_dropStale (s : Scan) : s.Stays s.dropStale := by
  unfold dropStale
  dsimp only
  split
  · exact .malformed
  · exact .ok rfl

theorem goes_settle (inside : s.cursor.Within t) : Goes t s.settle := by
  unfold settle
  refine (stays_dropStale _).bind fun s' same => ?_
  have inside' : s'.cursor.Within t := by
    rw [same]
    refine within_passBlanks _ ?_
    split
    · exact inside.next
    · exact inside
  split
  · exact inside'
  · exact inside'

theorem goes_directive (inside : s.cursor.Within t) (mark : s.cursor.peek = 37) :
    Goes t s.directive := by
  refine (stays_closeAll s).bind fun s' same => ?_
  rw [same]
  refine (Lexeme.reads_directive ?_).bind fun _ behind => behind
  rwa [Cursor.rest_eq_cons mark (by decide)]

theorem goes_documentMark (token : Token) (inside : s.cursor.Within t) :
    Goes t (s.documentMark token) :=
  (stays_closeAll s).bind fun _ same => Cursor.Within.advance (same ▸ inside) 3

theorem goes_openFlow (token : Token) (inside : s.cursor.Within t) : Goes t (s.openFlow token) :=
  (stays_proposeKey s).bind fun _ same => Cursor.Within.next (same ▸ inside)

theorem goes_closeFlow (token : Token) (inside : s.cursor.Within t) :
    Goes t (s.closeFlow token) := by
  refine (stays_dropCandidate s).bind fun s' same => ?_
  split
  · exact .malformed
  · exact Cursor.Within.next (same ▸ inside)

theorem goes_comma (inside : s.cursor.Within t) : Goes t s.comma :=
  (stays_dropCandidate s).bind fun _ same => Cursor.Within.next (same ▸ inside)

theorem goes_item (inside : s.cursor.Within t) : Goes t s.item :=
  (stays_openBlockHere s _).bind fun s' same =>
    (stays_dropCandidate s').bind fun _ same' =>
      Cursor.Within.next (same.symm.trans same'.symm ▸ inside)

theorem goes_key (inside : s.cursor.Within t) : Goes t s.key :=
  (stays_openBlockHere s _).bind fun s' same =>
    (stays_dropCandidate s').bind fun _ same' =>
      Cursor.Within.next (same.symm.trans same'.symm ▸ inside)

theorem goes_value (inside : s.cursor.Within t) : Goes t s.value := by
  unfold value
  split
  · next k _ =>
    extract_lets s'
    split
    next s'' opened found =>
    have same : s''.cursor = s.cursor := by
      split at found
      · cases found
        rfl
      · have stays := s'.cursor_openBlock k.column
        rwa [found] at stays
    have behind : s''.cursor.next.Within t := Cursor.Within.next (same ▸ inside)
    dsimp only
    split
    · exact behind
    · exact behind
  · exact (stays_openBlockHere s _).bind fun _ same => Cursor.Within.next (same ▸ inside)

theorem goes_lexeme {read : Cursor → Except Problem (Token × Cursor)}
    (reads : ∀ c : Cursor, c.Within t → Lexeme.Reads t (read c)) (inside : s.cursor.Within t) :
    Goes t (s.lexeme read) :=
  (stays_proposeKey s).bind fun s' same =>
    (reads s'.cursor (same ▸ inside)).bind fun _ behind => behind

theorem goes_plain (inside : s.cursor.Within t) : Goes t s.plain :=
  (stays_proposeKey s).bind fun _ same => Lexeme.within_plain _ _ (same ▸ inside)

theorem goes_block (folds : Bool) (inside : s.cursor.Within t) : Goes t (s.block folds) :=
  (stays_dropCandidate s).bind fun _ same =>
    (Lexeme.reads_block folds _ (Cursor.Within.next (same ▸ inside))).bind fun _ behind => behind

/-- A part of a token becomes a token. -/
theorem reads_map {α : Type} {r : Except Problem (α × Cursor)} (make : α → Token)
    (reads : Lexeme.Reads t r) :
    Lexeme.Reads t (do
      let (a, c) ← r
      return (make a, c)) :=
  Explained.bind reads fun _ behind => behind

theorem goes_step (inside : s.cursor.Within t) : Goes t s.step := by
  unfold step
  extract_lets c separated x
  refine .ite (fun mark => ?_) fun _ => ?_
  · exact goes_directive inside (of_decide_eq_true (Bool.and_eq_true_iff.mp mark).1)
  refine .ite (fun _ => goes_documentMark _ inside) fun _ => ?_
  refine .ite (fun _ => goes_documentMark _ inside) fun _ => ?_
  refine .ite (fun _ => goes_openFlow _ inside) fun _ => ?_
  refine .ite (fun _ => goes_openFlow _ inside) fun _ => ?_
  refine .ite (fun _ => goes_closeFlow _ inside) fun _ => ?_
  refine .ite (fun _ => goes_closeFlow _ inside) fun _ => ?_
  refine .ite (fun _ => goes_comma inside) fun _ => ?_
  refine .ite (fun _ => goes_item inside) fun _ => ?_
  refine .ite (fun _ => goes_key inside) fun _ => ?_
  refine .ite (fun _ => goes_value inside) fun _ => ?_
  refine .ite (fun _ => goes_lexeme (fun c there => ?_) inside) fun _ => ?_
  · exact reads_map Token.alias (Lexeme.reads_anchorName (Cursor.Within.next there))
  refine .ite (fun _ => goes_lexeme (fun c there => ?_) inside) fun _ => ?_
  · exact reads_map Token.anchor (Lexeme.reads_anchorName (Cursor.Within.next there))
  refine .ite (fun _ => goes_lexeme (fun c there => ?_) inside) fun _ => ?_
  · exact reads_map Token.tag (Lexeme.reads_tagName there)
  refine .ite (fun _ => goes_block _ inside) fun _ => ?_
  refine .ite (fun _ => goes_lexeme (fun c there => ?_) inside) fun _ => ?_
  · exact reads_map (Token.scalar false) (Lexeme.reads_quoted x there)
  exact .ite (fun _ => goes_plain inside) fun _ => .malformed

/-- A scan that is stopped by a fault is stopped by a number that is too large. -/
theorem misspelt_of_run {n : Nat} {fault : Fault} (inside : s.cursor.Within t)
    (stopped : (run n s).problem = some (.fault fault)) : Misspelt t fault := by
  induction n generalizing s with
  | zero => cases stopped
  | succ n ih =>
    have settles := goes_settle inside
    unfold run at stopped
    split at stopped
    · next p found =>
      rw [found] at settles
      obtain rfl : p = .fault fault := Option.some.inj stopped
      exact settles
    · next settled found =>
      rw [found] at settles
      have goes : Goes t (if settled.cursor.atEnd then settled.finish else settled.step) := by
        refine .ite (fun _ => ?_) fun _ => goes_step settles
        exact (stays_closeAll settled).mono (fun _ => False.elim) fun _ same => same ▸ settles
      dsimp only at stopped
      split at stopped
      · next p found' =>
        rw [found'] at goes
        obtain rfl : p = .fault fault := Option.some.inj stopped
        exact goes
      · next s' found' =>
        rw [found'] at goes
        split at stopped
        · cases stopped
        · exact ih goes stopped

end Scan

/-- If finding the tokens of a text is stopped by a fault, then by a number in the text that is too
large. -/
theorem misspelt_of_problem {t : Text} {fault : Fault}
    (stopped : (Tokens.of t).problem = some (.fault fault)) : Misspelt t fault :=
  Scan.misspelt_of_run (s := .start t) (List.suffix_refl t) stopped

end SwaggerDoc.Yaml
