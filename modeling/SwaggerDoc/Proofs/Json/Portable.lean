import SwaggerDoc.Proofs.Json.Syntax
import SwaggerDoc.Proofs.Nesting
import SwaggerDoc.Proofs.Yaml.Brackets

/-!
JSON that a reader of YAML takes as what it is.

A JSON text is portable if it is indented by spaces, if its strings hold no character that YAML
refuses or takes for another and no character in two halves, if what YAML takes for line breaks in
them stands apart from blanks and from the marks of a document, if each name stands on one line with
the colon behind it, close enough to be a key, if its numbers are not too long, and if it is not
nested too deep. The characters of a portable text can all be read (`JsonText.allReadable`), and when
its line ends have become line feeds the blanks in it are spaces and line feeds
(`JsonText.plainLines_eq`).
-/

namespace SwaggerDoc

open Yaml

namespace Json

/-- There is no tab. -/
def Blanks.isPortable (b : Blanks) : Bool := b.characters.all (· != 9)

/-- A character that is not escaped can be read, and is not the line break that counts as another. -/
def Piece.isPortable : Piece → Bool
  | .raw x _ => isReadable x && x != 0x85
  | _ => true

/-- No character is escaped in two halves. -/
def hasNoPair : List Piece → Bool
  | p :: q :: rest => !p.arePair q && hasNoPair (q :: rest)
  | _ => true

/-- Behind no line break stands what marks the bounds of a document. -/
def marksNothing : Text → Bool
  | [] => true
  | x :: rest => !(isBreak x && (Cursor.start rest).atDocument) && marksNothing rest

/-- Line breaks come through: no blank stands beside them, and they mark nothing. -/
def keepsBreaks (w : Text) : Bool :=
  !Features.adjacent isBreak (· == 32) w && !Features.adjacent (· == 32) isBreak w && marksNothing w

/-- The pieces stand for what they denote in YAML too. -/
def arePortable (pieces : List Piece) : Bool :=
  pieces.all Piece.isPortable && hasNoPair pieces && keepsBreaks (quoted pieces)

/-- The name stands on one line with the colon behind it, and is short enough for a key. -/
def isPortableName (name : Padded (List Piece)) : Bool :=
  name.before.isPortable && arePortable name.inner && name.after.characters.all (· == 32)
    && decide ((quoted name.inner).length + name.after.characters.length ≤ Scan.longestCandidate)
    && (quoted name.inner).all (!isBreak ·)

mutual

/-- A reader of YAML takes the value as what it is. -/
def isPortable : Json → Bool
  | .null | .bool _ => true
  | .number _ digits _ => decide (digits.length ≤ Literal.longest)
  | .string pieces => arePortable pieces
  | .emptyArray b | .emptyObject b => b.isPortable
  | .array ⟨before, v, after⟩ more =>
    before.isPortable && v.isPortable && after.isPortable && areItemsPortable more
  | .object ⟨name, before, v, after⟩ more =>
    isPortableName name && before.isPortable && v.isPortable && after.isPortable
      && areMembersPortable more

/-- All items are portable. -/
def areItemsPortable : List (Padded Json) → Bool
  | [] => true
  | ⟨before, v, after⟩ :: rest =>
    before.isPortable && v.isPortable && after.isPortable && areItemsPortable rest

/-- All members are portable. -/
def areMembersPortable : List (Member Json) → Bool
  | [] => true
  | ⟨name, before, v, after⟩ :: rest =>
    isPortableName name && before.isPortable && v.isPortable && after.isPortable
      && areMembersPortable rest

end

end Json

/-- A reader of YAML takes the text as what it is, and can follow what is nested in it. -/
def JsonText.isPortable (t : JsonText) : Bool :=
  t.before.isPortable && t.inner.isPortable && t.after.isPortable
    && decide (t.inner.data.depth ≤ sureDepth)

namespace Json

/-! ## Line ends -/

/-- Blanks whose lines all end in line feeds. -/
def Blanks.lines (b : Blanks) : Text := plainLines b.characters

/-- Line feeds come in the place of carriage returns, and nothing else changes. -/
theorem mem_plainLines {t : Text} {x : CodePoint} (member : x ∈ plainLines t) :
    x = 10 ∨ x ∈ t ∧ x ≠ 13 := by
  induction t using plainLines.induct with
  | case1 => cases member
  | case2 rest ih =>
    rw [plainLines] at member
    rcases List.mem_cons.mp member with feed | later
    · exact .inl feed
    · exact (ih later).imp_right (And.imp_left fun inside => by simp [inside])
  | case3 rest other ih =>
    rw [plainLines.eq_3 _ other] at member
    rcases List.mem_cons.mp member with feed | later
    · exact .inl feed
    · exact (ih later).imp_right (And.imp_left (List.mem_cons_of_mem _))
  | case4 y rest noPair noReturn ih =>
    rw [plainLines.eq_4 _ _ noPair noReturn] at member
    rcases List.mem_cons.mp member with rfl | later
    · exact .inr ⟨List.mem_cons_self, noReturn⟩
    · exact (ih later).imp_right (And.imp_left (List.mem_cons_of_mem _))

theorem Blanks.areBlank_lines {b : Blanks} (portable : b.isPortable = true) :
    AreBlank b.lines := by
  intro x member
  rcases mem_plainLines member with feed | ⟨inside, noReturn⟩
  · exact .inr feed
  · have blank := List.all_eq_true.mp b.blank x inside
    have noTab := List.all_eq_true.mp portable x inside
    simp only [Bool.or_eq_true, beq_iff_eq, bne_iff_ne] at blank noTab
    rcases blank with ((tab | feed) | carriage) | space
    · exact absurd tab noTab
    · exact .inr feed
    · exact absurd carriage noReturn
    · exact .inl space

/-- In front of what is no line feed, line ends are complete. -/
theorem plainLines_append {rest : Text} (t : Text) (noFeed : rest.head? ≠ some 10) :
    plainLines (t ++ rest) = plainLines t ++ plainLines rest := by
  induction t using plainLines.induct with
  | case1 => rfl
  | case2 more ih => simp [plainLines, ih]
  | case3 more other ih =>
    rw [plainLines.eq_3 _ other, List.cons_append, plainLines.eq_3, ih, List.cons_append]
    intro later same
    cases more with
    | nil => exact noFeed (by rw [List.nil_append] at same; rw [same]; rfl)
    | cons y more =>
      obtain ⟨rfl, -⟩ := List.cons.inj same
      exact other more rfl
  | case4 x more noPair noReturn ih =>
    rw [plainLines.eq_4 _ _ noPair noReturn, List.cons_append, plainLines.eq_4, ih,
      List.cons_append]
    · exact fun _ h => absurd h noReturn
    · exact noReturn

theorem plainLines_solid {t : Text} (solid : 13 ∉ t) (rest : Text) :
    plainLines (t ++ rest) = t ++ plainLines rest := by
  induction t with
  | nil => rfl
  | cons x t ih =>
    obtain ⟨other, later⟩ := List.ne_and_not_mem_of_not_mem_cons solid
    rw [List.cons_append, plainLines.eq_4 _ _ (fun _ h => absurd h.symm other) (Ne.symm other),
      ih later, List.cons_append]

section Lines

variable {blanks : Blanks → Text}

theorem basic_of_hexValue? {d : CodePoint} (digit : (Text.hexValue? d).isSome = true) :
    32 ≤ d ∧ d < 127 := by
  unfold Text.hexValue? at digit
  dsimp only [CodePoint] at *
  split at digit
  · next range => simp at range; omega
  · split at digit
    · next range => simp at range; omega
    · split at digit
      · next range => simp at range; omega
      · cases digit

/-- An escape is written in the basic alphabet. -/
theorem Piece.basic_written {p : Piece} (escaped : ∀ x ordinary, p ≠ .raw x ordinary) :
    ∀ x ∈ p.written, 32 ≤ x ∧ x < 127 := by
  cases p with
  | raw x ordinary => exact absurd rfl (escaped x ordinary)
  | escape e => cases e <;> decide
  | unit u =>
    refine List.forall_mem_cons.mpr ⟨by decide, List.forall_mem_cons.mpr ⟨by decide, ?_⟩⟩
    exact fun d member => basic_of_hexValue? (List.all_eq_true.mp u.hexadecimal d member)

theorem written_solid (p : Piece) : ∀ x ∈ p.written, 32 ≤ x := by
  by_cases raw : ∃ x ordinary, p = .raw x ordinary
  · obtain ⟨x, ordinary, rfl⟩ := raw
    have bounds := ordinary
    simp only [Bool.and_eq_true, decide_eq_true_eq] at bounds
    exact List.forall_mem_singleton.mpr bounds.1.1.1
  · intro x member
    exact (Piece.basic_written (fun y h same => raw ⟨y, h, same⟩) x member).1

theorem quoted_solid (pieces : List Piece) : ∀ x ∈ quoted pieces, 32 ≤ x := by
  refine List.forall_mem_cons.mpr ⟨by decide, List.forall_mem_append.mpr ⟨?_, by decide⟩⟩
  intro x member
  obtain ⟨p, -, inside⟩ := List.mem_flatMap.mp member
  exact written_solid p x inside

theorem isSeparator_digit {c : Nat} (least : 48 ≤ c) (greatest : c ≤ 57) :
    isSeparator c = false := by
  simp only [isSeparator, isBreak, Bool.or_eq_false_iff, beq_eq_false_iff_ne]
  dsimp only [CodePoint] at *
  omega

/-- A value begins with a character that is neither blank nor the mark of a comment. -/
theorem beginsInk (v : Json) : BeginsInk (v.writtenWith blanks) := by
  cases v with
  | null => exact ⟨110, _, rfl, by decide⟩
  | bool b => cases b <;> exact ⟨_, _, rfl, by decide⟩
  | number negative digits numeral =>
    cases negative with
    | true => exact ⟨45, _, rfl, by decide⟩
    | false =>
      obtain ⟨c, rest, rfl, least, greatest, -⟩ := numeral.exists_cons
      refine ⟨c, rest, rfl, isSeparator_digit least greatest, ?_, ?_⟩ <;>
        dsimp only [CodePoint] at * <;> omega
  | string pieces => exact ⟨34, _, rfl, by decide⟩
  | emptyArray b | array first more => exact ⟨91, _, by rw [writtenWith], by decide⟩
  | emptyObject b | object first more => exact ⟨123, _, by rw [writtenWith], by decide⟩

theorem plainLines_cons {x : CodePoint} (other : x ≠ 13) (rest : Text) :
    plainLines (x :: rest) = x :: plainLines rest :=
  plainLines_solid (t := [x]) (by simpa using other.symm) rest

theorem no_feed_cons {x : CodePoint} (other : x ≠ 10) (rest : Text) :
    (x :: rest).head? ≠ some 10 := fun same => other (Option.some.inj same)

theorem no_feed_of_beginsInk {w : Text} (begins : BeginsInk w) (rest : Text) :
    (w ++ rest).head? ≠ some 10 := by
  obtain ⟨x, v, rfl, solid, -⟩ := begins
  rintro ⟨⟩
  cases solid

theorem plainLines_around {before after : Blanks} {inner inner' rest : Text}
    (begins : BeginsInk inner)
    (within : ∀ rest, plainLines (inner ++ rest) = inner' ++ plainLines rest)
    (noFeed : rest.head? ≠ some 10) :
    plainLines (around Blanks.characters before after inner ++ rest) =
      around Blanks.lines before after inner' ++ plainLines rest := by
  simp only [around, List.append_assoc]
  rw [plainLines_append _ (no_feed_of_beginsInk begins _), within, plainLines_append _ noFeed]
  rfl

theorem plainLines_quoted (pieces : List Piece) (rest : Text) :
    plainLines (quoted pieces ++ rest) = quoted pieces ++ plainLines rest := by
  refine plainLines_solid (fun member => ?_) rest
  exact absurd (quoted_solid pieces 13 member) (by decide)

theorem plainLines_name (name : Padded (List Piece)) (rest : Text) :
    plainLines (nameWith Blanks.characters name ++ rest) =
      nameWith Blanks.lines name ++ plainLines rest := by
  have colon : (58 :: rest).head? ≠ some 10 := no_feed_cons (by decide) rest
  have begins : BeginsInk (quoted name.inner) := ⟨34, _, rfl, by decide⟩
  rw [nameWith, nameWith, List.append_assoc, List.singleton_append,
    plainLines_around begins (plainLines_quoted name.inner) colon, plainLines_cons (by decide),
    List.append_assoc, List.singleton_append]

theorem itemsWith_no_feed {rest : Text} (items : List (Padded Json))
    (noFeed : rest.head? ≠ some 10) : (itemsWith blanks items ++ rest).head? ≠ some 10 := by
  cases items with
  | nil => exact noFeed
  | cons item items => exact no_feed_cons (by decide) _

theorem membersWith_no_feed {rest : Text} (members : List (Member Json))
    (noFeed : rest.head? ≠ some 10) : (membersWith blanks members ++ rest).head? ≠ some 10 := by
  cases members with
  | nil => exact noFeed
  | cons member members => exact no_feed_cons (by decide) _

mutual

/-- When line ends become line feeds, they do so in the blanks only. -/
theorem plainLines_writtenWith : (v : Json) → (rest : Text) →
    plainLines (v.writtenWith Blanks.characters ++ rest) =
      v.writtenWith Blanks.lines ++ plainLines rest
  | .null, rest => plainLines_solid (by decide) rest
  | .bool true, rest | .bool false, rest => plainLines_solid (by decide) rest
  | .number negative digits numeral, rest => by
    refine plainLines_solid (fun member => ?_) rest
    rcases List.mem_append.mp member with sign | digit
    · cases negative with
      | true => exact absurd (List.mem_singleton.mp sign) (by decide)
      | false => cases sign
    · exact numeral.not_mem (.inl (by decide)) digit
  | .string pieces, rest => plainLines_quoted pieces rest
  | .emptyArray b, rest | .emptyObject b, rest => by
    simp only [writtenWith, List.cons_append, List.append_assoc, List.nil_append]
    rw [plainLines_cons (by decide), plainLines_append _ (no_feed_cons (by decide) rest),
      plainLines_cons (by decide)]
    rfl
  | .array ⟨before, v, after⟩ more, rest => by
    have close : (93 :: rest).head? ≠ some 10 := no_feed_cons (by decide) rest
    simp only [writtenWith, List.cons_append, List.append_assoc, List.nil_append]
    rw [plainLines_cons (by decide), plainLines_around (beginsInk v) (plainLines_writtenWith v)
      (itemsWith_no_feed more close), plainLines_itemsWith more close, plainLines_cons (by decide)]
  | .object ⟨name, before, v, after⟩ more, rest => by
    have close : (125 :: rest).head? ≠ some 10 := no_feed_cons (by decide) rest
    simp only [writtenWith, List.cons_append, List.append_assoc, List.nil_append]
    rw [plainLines_cons (by decide), plainLines_name, plainLines_around (beginsInk v)
      (plainLines_writtenWith v) (membersWith_no_feed more close),
      plainLines_membersWith more close, plainLines_cons (by decide)]

theorem plainLines_itemsWith : (items : List (Padded Json)) → {rest : Text} →
    rest.head? ≠ some 10 → plainLines (itemsWith Blanks.characters items ++ rest) =
      itemsWith Blanks.lines items ++ plainLines rest
  | [], _, _ => rfl
  | ⟨before, v, after⟩ :: more, rest, noFeed => by
    simp only [itemsWith, List.cons_append, List.append_assoc]
    rw [plainLines_cons (by decide), plainLines_around (beginsInk v) (plainLines_writtenWith v)
      (itemsWith_no_feed more noFeed), plainLines_itemsWith more noFeed]

theorem plainLines_membersWith : (members : List (Member Json)) → {rest : Text} →
    rest.head? ≠ some 10 → plainLines (membersWith Blanks.characters members ++ rest) =
      membersWith Blanks.lines members ++ plainLines rest
  | [], _, _ => rfl
  | ⟨name, before, v, after⟩ :: more, rest, noFeed => by
    simp only [membersWith, List.cons_append, List.append_assoc]
    rw [plainLines_cons (by decide), plainLines_name, plainLines_around (beginsInk v)
      (plainLines_writtenWith v) (membersWith_no_feed more noFeed),
      plainLines_membersWith more noFeed]

end

end Lines

/-! ## Characters that can be read -/

section Readable

/-- All characters can be read. -/
def AllReadable (w : Text) : Prop := ∀ x ∈ w, isReadable x = true

instance (w : Text) : Decidable (AllReadable w) :=
  inferInstanceAs (Decidable (∀ x ∈ w, isReadable x = true))

variable {v w : Text} {x : CodePoint}

theorem AllReadable.cons (first : isReadable x = true) (rest : AllReadable w) :
    AllReadable (x :: w) := List.forall_mem_cons.mpr ⟨first, rest⟩

theorem AllReadable.append (front : AllReadable v) (rest : AllReadable w) :
    AllReadable (v ++ w) := List.forall_mem_append.mpr ⟨front, rest⟩

theorem allReadable_blanks (b : Blanks) : AllReadable b.characters := by
  intro x member
  have blank := List.all_eq_true.mp b.blank x member
  simp only [Bool.or_eq_true, beq_iff_eq] at blank
  rcases blank with ((rfl | rfl) | rfl) | rfl <;> rfl

theorem AllReadable.around (inner : AllReadable w) (before after : Blanks) :
    AllReadable (Json.around Blanks.characters before after w) :=
  (allReadable_blanks before).append (inner.append (allReadable_blanks after))

theorem isReadable_digit (least : 48 ≤ x) (greatest : x ≤ 57) : isReadable x = true :=
  (isWritten_of_basic (Nat.le_trans (by decide) least)
    (Nat.lt_of_le_of_lt greatest (by decide))).1

theorem Piece.allReadable {p : Piece} (portable : p.isPortable = true) :
    AllReadable p.written := by
  by_cases raw : ∃ x ordinary, p = .raw x ordinary
  · obtain ⟨x, ordinary, rfl⟩ := raw
    exact .cons (Bool.and_eq_true_iff.mp portable).1 (List.forall_mem_nil _)
  · intro x member
    have range := Piece.basic_written (fun y h same => raw ⟨y, h, same⟩) x member
    exact (isWritten_of_basic range.1 range.2).1

theorem allReadable_quoted {pieces : List Piece} (portable : arePortable pieces = true) :
    AllReadable (quoted pieces) := by
  simp only [arePortable, Bool.and_eq_true] at portable
  have all := List.all_eq_true.mp portable.1.1
  refine .cons rfl (.append (fun x member => ?_) (.cons rfl (List.forall_mem_nil _)))
  obtain ⟨p, listed, inside⟩ := List.mem_flatMap.mp member
  exact Piece.allReadable (all p listed) x inside

theorem allReadable_name {name : Padded (List Piece)} (portable : isPortableName name = true) :
    AllReadable (nameWith Blanks.characters name) := by
  simp only [isPortableName, Bool.and_eq_true] at portable
  exact ((allReadable_quoted portable.1.1.1.2).around _ _).append
    (.cons rfl (List.forall_mem_nil _))

mutual

/-- The characters of a portable value can be read. -/
theorem allReadable_writtenWith : (v : Json) → v.isPortable = true →
    AllReadable (v.writtenWith Blanks.characters)
  | .null, _ | .bool true, _ | .bool false, _ => by decide
  | .number negative digits numeral, _ => by
    refine .append ?_ fun x member => ?_
    · cases negative <;> decide
    · exact isReadable_digit (numeral.digits x member).1 (numeral.digits x member).2
  | .string pieces, portable => allReadable_quoted portable
  | .emptyArray b, _ | .emptyObject b, _ =>
    .cons rfl ((allReadable_blanks b).append (.cons rfl (List.forall_mem_nil _)))
  | .array ⟨before, v, after⟩ more, portable => by
    simp only [isPortable, Bool.and_eq_true] at portable
    obtain ⟨⟨⟨-, first⟩, -⟩, later⟩ := portable
    exact .cons rfl (((allReadable_writtenWith v first).around before after).append
      ((allReadable_itemsWith more later).append (.cons rfl (List.forall_mem_nil _))))
  | .object ⟨name, before, v, after⟩ more, portable => by
    simp only [isPortable, Bool.and_eq_true] at portable
    obtain ⟨⟨⟨⟨named, -⟩, first⟩, -⟩, later⟩ := portable
    exact .cons rfl ((allReadable_name named).append
      (((allReadable_writtenWith v first).around before after).append
        ((allReadable_membersWith more later).append (.cons rfl (List.forall_mem_nil _)))))

theorem allReadable_itemsWith : (items : List (Padded Json)) → areItemsPortable items = true →
    AllReadable (itemsWith Blanks.characters items)
  | [], _ => List.forall_mem_nil _
  | ⟨before, v, after⟩ :: more, portable => by
    simp only [areItemsPortable, Bool.and_eq_true] at portable
    obtain ⟨⟨⟨-, first⟩, -⟩, later⟩ := portable
    exact .cons rfl (((allReadable_writtenWith v first).around before after).append
      (allReadable_itemsWith more later))

theorem allReadable_membersWith : (members : List (Member Json)) →
    areMembersPortable members = true → AllReadable (membersWith Blanks.characters members)
  | [], _ => List.forall_mem_nil _
  | ⟨name, before, v, after⟩ :: more, portable => by
    simp only [areMembersPortable, Bool.and_eq_true] at portable
    obtain ⟨⟨⟨⟨named, -⟩, first⟩, -⟩, later⟩ := portable
    exact .cons rfl ((allReadable_name named).append
      (((allReadable_writtenWith v first).around before after).append
        (allReadable_membersWith more later)))

end

end Readable

end Json

/-- The characters of a portable text can be read. -/
theorem JsonText.allReadable {t : JsonText} (portable : JsonText.isPortable t = true) :
    Json.AllReadable t.characters := by
  simp only [JsonText.isPortable, Bool.and_eq_true] at portable
  exact (Json.allReadable_writtenWith t.inner portable.1.1.2).around t.before t.after

/-- A text with line feeds at the ends of its lines. -/
theorem JsonText.plainLines_eq (t : JsonText) :
    plainLines t.characters =
      Json.around Json.Blanks.lines t.before t.after (t.inner.writtenWith Json.Blanks.lines) := by
  have around : plainLines (t.characters ++ []) =
      Json.around Json.Blanks.lines t.before t.after (t.inner.writtenWith Json.Blanks.lines) ++
        plainLines [] :=
    Json.plainLines_around (Json.beginsInk t.inner) (Json.plainLines_writtenWith t.inner) (by simp)
  simpa [plainLines] using around

end SwaggerDoc
