import SwaggerDoc.Proofs.Json.Scalars

/-!
The tokens of JSON.

A scan over a portable value finds the tokens of the value and passes the blanks behind it
(`Json.moves_value`), so that a text whose root is a list or a mapping has the tokens of its root
(`JsonText.tokens_eq`).
-/

namespace SwaggerDoc

open Yaml

namespace Json

/-- The tokens of a name and of the colon behind it. -/
def nameTokens (name : Padded (List Piece)) : List Token :=
  [.key, .scalar false (meaning name.inner), .value]

mutual

/-- The tokens of a value. -/
def tokens : Json → List Token
  | .null => [.scalar true (text "null")]
  | .bool b => [.scalar true (text (if b then "true" else "false"))]
  | .number negative digits _ => [.scalar true ((if negative then [45] else []) ++ digits)]
  | .string pieces => [.scalar false (meaning pieces)]
  | .emptyArray _ => [.flowSequence, .flowSequenceEnd]
  | .array ⟨_, v, _⟩ more => .flowSequence :: (v.tokens ++ (itemTokens more ++ [.flowSequenceEnd]))
  | .emptyObject _ => [.flowMapping, .flowMappingEnd]
  | .object ⟨name, _, v, _⟩ more =>
    .flowMapping :: (nameTokens name ++ (v.tokens ++ (memberTokens more ++ [.flowMappingEnd])))

/-- The tokens of items, each behind a comma. -/
def itemTokens : List (Padded Json) → List Token
  | [] => []
  | ⟨_, v, _⟩ :: rest => .comma :: (v.tokens ++ itemTokens rest)

/-- The tokens of members, each behind a comma. -/
def memberTokens : List (Member Json) → List Token
  | [] => []
  | ⟨name, _, v, _⟩ :: rest =>
    .comma :: (nameTokens name ++ (v.tokens ++ memberTokens rest))

end

/-- Whether a value has parts between brackets. -/
def isCollection : Json → Bool
  | .emptyArray _ | .array _ _ | .emptyObject _ | .object _ _ => true
  | _ => false

open Scan

section Moves

variable {depth : Nat} {read rest gap : Text} {found : List Token} {s : Scan}

theorem isWord_number (negative : Bool) {digits : Text} (numeral : Numeral digits) :
    IsWord ((if negative then [45] else []) ++ digits) := by
  obtain ⟨c, more, rfl, least, greatest, -⟩ := numeral.exists_cons
  have digit : ∀ x ∈ c :: more, IsWordCharacter x := fun x member =>
    .inr (.inl (numeral.digits x member))
  cases negative with
  | true =>
    refine ⟨List.forall_mem_cons.mpr ⟨.inl rfl, digit⟩, 45, c :: more, rfl, fun _ =>
      ⟨c, more, rfl, ?_⟩⟩
    dsimp only [CodePoint] at *
    omega
  | false =>
    refine ⟨digit, c, more, rfl, fun same => ?_⟩
    dsimp only [CodePoint] at *
    omega

theorem isWord_letters {w : Text} (letters : w.all (fun x => 97 ≤ x && x ≤ 122) = true)
    (some : w ≠ []) : IsWord w := by
  have range (x : CodePoint) (member : x ∈ w) : 97 ≤ x ∧ x ≤ 122 := by
    simpa using List.all_eq_true.mp letters x member
  obtain ⟨x, v, rfl⟩ := List.exists_cons_of_ne_nil some
  refine ⟨fun y member => .inr (.inr (range y member)), x, v, rfl, ?_⟩
  rintro rfl
  exact absurd (range 45 List.mem_cons_self).1 (by decide)

theorem lines_of_spaces {b : Blanks} (spaces : b.characters.all (· == 32) = true) :
    b.lines = b.characters := by
  refine plainLines_eq_self fun x member => ?_
  rw [eq_of_beq (List.all_eq_true.mp spaces x member)]
  decide

/-- A string, which can be a key until a line ends or it is too far away. -/
theorem moves_string {pieces : List Piece} (portable : arePortable pieces = true)
    (inside : s.Inside depth read (quoted pieces ++ (gap ++ rest)) found) (blank : AreBlank gap)
    (token : BeginsToken rest) :
    ∃ t, Moves s t ∧
      t.Inside depth (read ++ (quoted pieces ++ gap)) rest
        (.scalar false (meaning pieces) :: found) ∧
      (s.keyAllowed = true →
        isStale (.behind (read ++ (quoted pieces ++ gap)) rest) (keyAt read found) = false →
        t.candidate = some (keyAt read found)) := by
  have written : quoted pieces ++ (gap ++ rest) =
      34 :: (pieces.flatMap Piece.written ++ 34 :: (gap ++ rest)) := by
    simp [quoted]
  have found' := quoted_eq portable read (gap ++ rest)
  rw [written] at inside found'
  obtain ⟨t, moves, inside', key⟩ := inside.moves_quoted found' (by
    simp only [List.length_append, List.length_cons]; omega) blank token
  rw [List.append_assoc] at inside' key
  exact ⟨t, moves, inside', key⟩

/-- A name is a key, and behind its colon the value begins. -/
theorem moves_name {name : Padded (List Piece)} (portable : isPortableName name = true)
    (inside : s.Inside (depth + 1) read
      (quoted name.inner ++ (name.after.lines ++ 58 :: (gap ++ rest))) found)
    (allowed : s.keyAllowed = true) (blank : AreBlank gap) (token : BeginsToken rest) :
    ∃ t, Relation.ReflTransGen Moves s t ∧ t.Inside (depth + 1)
      (read ++ (quoted name.inner ++ (name.after.lines ++ 58 :: gap))) rest
      ((nameTokens name).reverse ++ found) := by
  simp only [isPortableName, Bool.and_eq_true, decide_eq_true_eq] at portable
  obtain ⟨⟨⟨⟨-, string⟩, spaces⟩, short⟩, unbroken⟩ := portable
  have lines := lines_of_spaces spaces
  have blankAfter : AreBlank name.after.lines := fun x member => by
    rw [lines] at member
    exact .inl (eq_of_beq (List.all_eq_true.mp spaces x member))
  have colon : BeginsToken (58 :: (gap ++ rest)) := beginsToken_cons _ (by decide)
  have fresh : isStale (.behind (read ++ (quoted name.inner ++ name.after.lines))
      (58 :: (gap ++ rest))) (keyAt read found) = false := by
    have oneLine : linesOf (quoted name.inner ++ name.after.lines) = 0 := by
      refine linesOf_eq_zero (List.forall_mem_append.mpr ⟨fun x member => ?_, fun x member => ?_⟩)
      · simpa using List.all_eq_true.mp unbroken x member
      rw [lines] at member
      rw [eq_of_beq (List.all_eq_true.mp spaces x member)]
      rfl
    simp only [isStale, Cursor.line_behind, Cursor.index_behind, keyAt, linesOf_append read,
      oneLine, List.length_append, Nat.add_zero, bne_self_eq_false, Bool.false_or,
      decide_eq_false_iff_not]
    rw [lines]
    omega
  obtain ⟨t, moves, inside', key⟩ := moves_string string inside blankAfter colon
  obtain ⟨t', moves', inside''⟩ := inside'.moves_colon (key allowed fresh) blank token
  refine ⟨t', .tail (.single moves) moves', ?_⟩
  simpa [nameTokens] using inside''

theorem endsPart_items (blanks : Blanks → Text) (items : List (Padded Json)) (rest : Text) :
    EndsPart (itemsWith blanks items ++ 93 :: rest) := by
  cases items with
  | nil => exact ⟨93, _, rfl, by decide⟩
  | cons item items => exact ⟨44, _, rfl, by decide⟩

theorem endsPart_members (blanks : Blanks → Text) (members : List (Member Json)) (rest : Text) :
    EndsPart (membersWith blanks members ++ 125 :: rest) := by
  cases members with
  | nil => exact ⟨125, _, rfl, by decide⟩
  | cons member members => exact ⟨44, _, rfl, by decide⟩

theorem beginsToken_value (v : Json) (blanks : Blanks → Text) (rest : Text) :
    BeginsToken (v.writtenWith blanks ++ rest) :=
  ((beginsInk v).append rest).beginsToken

theorem beginsToken_quoted (pieces : List Piece) (rest : Text) :
    BeginsToken (quoted pieces ++ rest) :=
  beginsToken_cons _ (by decide)

theorem isPortable_before {name : Padded (List Piece)} (portable : isPortableName name = true) :
    name.before.isPortable = true := by
  simp only [isPortableName, Bool.and_eq_true] at portable
  exact portable.1.1.1.1

mutual

/-- A value and the blanks behind it. -/
theorem moves_value : (v : Json) → v.isPortable = true → {depth : Nat} → {read gap rest : Text} →
    {found : List Token} → {s : Scan} →
    s.Inside depth read (v.writtenWith Blanks.lines ++ (gap ++ rest)) found → AreBlank gap →
    BeginsToken rest → (v.isCollection = false → depth ≠ 0 ∧ EndsPart rest) →
    ∃ t, Relation.ReflTransGen Moves s t ∧
      t.Inside depth (read ++ (v.writtenWith Blanks.lines ++ gap)) rest (v.tokens.reverse ++ found)
  | .null, _, _, _, _, _, _, _, inside, blank, _, inner => by
    obtain ⟨deep, ends⟩ := inner rfl
    obtain ⟨depth, rfl⟩ := Nat.exists_eq_add_one_of_ne_zero deep
    obtain ⟨t, moves, after⟩ := Inside.moves_word inside
      (isWord_letters (by decide) (by decide)) blank ends
    exact ⟨t, .single moves, by simpa [tokens, writtenWith] using after⟩
  | .bool b, _, _, _, _, _, _, _, inside, blank, _, inner => by
    obtain ⟨deep, ends⟩ := inner rfl
    obtain ⟨depth, rfl⟩ := Nat.exists_eq_add_one_of_ne_zero deep
    obtain ⟨t, moves, after⟩ := Inside.moves_word inside
      (isWord_letters (by cases b <;> decide) (by cases b <;> decide)) blank ends
    exact ⟨t, .single moves, by simpa [tokens, writtenWith] using after⟩
  | .number negative digits numeral, _, _, _, _, _, _, _, inside, blank, _, inner => by
    obtain ⟨deep, ends⟩ := inner rfl
    obtain ⟨depth, rfl⟩ := Nat.exists_eq_add_one_of_ne_zero deep
    obtain ⟨t, moves, after⟩ := Inside.moves_word inside (isWord_number negative numeral) blank
      ends
    exact ⟨t, .single moves, by simpa [tokens, writtenWith] using after⟩
  | .string pieces, portable, _, _, _, _, _, _, inside, blank, token, _ => by
    obtain ⟨t, moves, after, -⟩ := moves_string portable inside blank token
    exact ⟨t, .single moves, by simpa [tokens, writtenWith] using after⟩
  | .emptyArray b, portable, _, _, gap, rest, _, _, inside, blank, token, _ => by
    have close : BeginsToken (93 :: (gap ++ rest)) := beginsToken_cons _ (by decide)
    simp only [writtenWith, List.cons_append, List.append_assoc, List.nil_append] at inside
    obtain ⟨t₁, moves₁, inside₁, -⟩ := inside.moves_left .sequence (Blanks.areBlank_lines portable)
      close
    obtain ⟨t₂, moves₂, inside₂⟩ := inside₁.moves_right .sequence blank token
    exact ⟨t₂, .tail (.single moves₁) moves₂, by simpa [tokens, writtenWith] using inside₂⟩
  | .array ⟨before, v, after⟩ more, portable, _, _, gap, rest, _, _, inside, blank, token, _ => by
    simp only [isPortable, Bool.and_eq_true] at portable
    obtain ⟨⟨⟨blankBefore, first⟩, blankAfter⟩, later⟩ := portable
    have ends := endsPart_items Blanks.lines more (gap ++ rest)
    simp only [writtenWith, around, List.cons_append, List.append_assoc, List.nil_append] at inside
    obtain ⟨t₁, moves₁, inside₁, -⟩ := inside.moves_left .sequence
      (Blanks.areBlank_lines blankBefore) (beginsToken_value v _ _)
    obtain ⟨t₂, moves₂, inside₂⟩ := moves_value v first inside₁ (Blanks.areBlank_lines blankAfter)
      ends.beginsToken fun _ => ⟨Nat.succ_ne_zero _, ends⟩
    obtain ⟨t₃, moves₃, inside₃⟩ := moves_items more later inside₂ blank token
    exact ⟨t₃, .head moves₁ (moves₂.trans moves₃), by
      simpa [tokens, writtenWith, around] using inside₃⟩
  | .emptyObject b, portable, _, _, gap, rest, _, _, inside, blank, token, _ => by
    have close : BeginsToken (125 :: (gap ++ rest)) := beginsToken_cons _ (by decide)
    simp only [writtenWith, List.cons_append, List.append_assoc, List.nil_append] at inside
    obtain ⟨t₁, moves₁, inside₁, -⟩ := inside.moves_left .mapping (Blanks.areBlank_lines portable)
      close
    obtain ⟨t₂, moves₂, inside₂⟩ := inside₁.moves_right .mapping blank token
    exact ⟨t₂, .tail (.single moves₁) moves₂, by simpa [tokens, writtenWith] using inside₂⟩
  | .object ⟨name, before, v, after⟩ more, portable, _, _, gap, rest, _, _, inside, blank,
      token, _ => by
    simp only [isPortable, Bool.and_eq_true] at portable
    obtain ⟨⟨⟨⟨named, blankBefore⟩, first⟩, blankAfter⟩, later⟩ := portable
    have ends := endsPart_members Blanks.lines more (gap ++ rest)
    simp only [writtenWith, nameWith, around, List.cons_append, List.append_assoc,
      List.nil_append] at inside
    obtain ⟨t₁, moves₁, inside₁, allowed⟩ := inside.moves_left .mapping
      (Blanks.areBlank_lines (isPortable_before named)) (beginsToken_quoted _ _)
    obtain ⟨t₂, moves₂, inside₂⟩ := moves_name named inside₁ allowed
      (Blanks.areBlank_lines blankBefore) (beginsToken_value v _ _)
    obtain ⟨t₃, moves₃, inside₃⟩ := moves_value v first inside₂ (Blanks.areBlank_lines blankAfter)
      ends.beginsToken fun _ => ⟨Nat.succ_ne_zero _, ends⟩
    obtain ⟨t₄, moves₄, inside₄⟩ := moves_members more later inside₃ blank token
    exact ⟨t₄, .head moves₁ (moves₂.trans (moves₃.trans moves₄)), by
      simpa [tokens, writtenWith, nameWith, around] using inside₄⟩

/-- Items, the bracket behind them and the blanks behind that. -/
theorem moves_items : (items : List (Padded Json)) → areItemsPortable items = true →
    {depth : Nat} → {read gap rest : Text} → {found : List Token} → {s : Scan} →
    s.Inside (depth + 1) read (itemsWith Blanks.lines items ++ 93 :: (gap ++ rest)) found →
    AreBlank gap → BeginsToken rest → ∃ t, Relation.ReflTransGen Moves s t ∧
      t.Inside depth (read ++ (itemsWith Blanks.lines items ++ 93 :: gap)) rest
        ((itemTokens items ++ [Token.flowSequenceEnd]).reverse ++ found)
  | [], _, _, _, _, _, _, _, inside, blank, token => by
    obtain ⟨t, moves, after⟩ := Inside.moves_right inside .sequence blank token
    exact ⟨t, .single moves, by simpa [itemTokens, itemsWith] using after⟩
  | ⟨before, v, after⟩ :: more, portable, _, _, gap, rest, _, _, inside, blank, token => by
    simp only [areItemsPortable, Bool.and_eq_true] at portable
    obtain ⟨⟨⟨blankBefore, first⟩, blankAfter⟩, later⟩ := portable
    have ends := endsPart_items Blanks.lines more (gap ++ rest)
    simp only [itemsWith, around, List.cons_append, List.append_assoc] at inside
    obtain ⟨t₁, moves₁, inside₁, -⟩ := inside.moves_comma (Blanks.areBlank_lines blankBefore)
      (beginsToken_value v _ _)
    obtain ⟨t₂, moves₂, inside₂⟩ := moves_value v first inside₁ (Blanks.areBlank_lines blankAfter)
      ends.beginsToken fun _ => ⟨Nat.succ_ne_zero _, ends⟩
    obtain ⟨t₃, moves₃, inside₃⟩ := moves_items more later inside₂ blank token
    exact ⟨t₃, .head moves₁ (moves₂.trans moves₃), by
      simpa [itemTokens, itemsWith, around] using inside₃⟩

/-- Members, the bracket behind them and the blanks behind that. -/
theorem moves_members : (members : List (Member Json)) → areMembersPortable members = true →
    {depth : Nat} → {read gap rest : Text} → {found : List Token} → {s : Scan} →
    s.Inside (depth + 1) read (membersWith Blanks.lines members ++ 125 :: (gap ++ rest)) found →
    AreBlank gap → BeginsToken rest → ∃ t, Relation.ReflTransGen Moves s t ∧
      t.Inside depth (read ++ (membersWith Blanks.lines members ++ 125 :: gap)) rest
        ((memberTokens members ++ [Token.flowMappingEnd]).reverse ++ found)
  | [], _, _, _, _, _, _, _, inside, blank, token => by
    obtain ⟨t, moves, after⟩ := Inside.moves_right inside .mapping blank token
    exact ⟨t, .single moves, by simpa [memberTokens, membersWith] using after⟩
  | ⟨name, before, v, after⟩ :: more, portable, _, _, gap, rest, _, _, inside, blank, token => by
    simp only [areMembersPortable, Bool.and_eq_true] at portable
    obtain ⟨⟨⟨⟨named, blankBefore⟩, first⟩, blankAfter⟩, later⟩ := portable
    have ends := endsPart_members Blanks.lines more (gap ++ rest)
    simp only [membersWith, nameWith, around, List.cons_append, List.append_assoc,
      List.nil_append] at inside
    obtain ⟨t₁, moves₁, inside₁, allowed⟩ := inside.moves_comma
      (Blanks.areBlank_lines (isPortable_before named)) (beginsToken_quoted _ _)
    obtain ⟨t₂, moves₂, inside₂⟩ := moves_name named inside₁ allowed
      (Blanks.areBlank_lines blankBefore) (beginsToken_value v _ _)
    obtain ⟨t₃, moves₃, inside₃⟩ := moves_value v first inside₂ (Blanks.areBlank_lines blankAfter)
      ends.beginsToken fun _ => ⟨Nat.succ_ne_zero _, ends⟩
    obtain ⟨t₄, moves₄, inside₄⟩ := moves_members more later inside₃ blank token
    exact ⟨t₄, .head moves₁ (moves₂.trans (moves₃.trans moves₄)), by
      simpa [memberTokens, membersWith, nameWith, around] using inside₄⟩

end

end Moves

end Json

open Json Scan in
/-- The tokens of a portable text are those of its root. -/
theorem JsonText.tokens_eq {t : JsonText} (portable : JsonText.isPortable t = true)
    (collection : t.inner.isCollection = true) :
    Tokens.of (plainLines t.characters) = ⟨t.inner.tokens, none⟩ := by
  simp only [JsonText.isPortable, Bool.and_eq_true] at portable
  obtain ⟨⟨⟨blankBefore, inner⟩, blankAfter⟩, -⟩ := portable
  rw [JsonText.plainLines_eq]
  have nothing : BeginsToken [] := by constructor <;> simp [BeginsSolid]
  have begun : (Scan.start (around Blanks.lines t.before t.after
      (t.inner.writtenWith Blanks.lines))).Inside 0 [] (t.before.lines ++
        (t.inner.writtenWith Blanks.lines ++ (t.after.lines ++ []))) [] :=
    ⟨by simp [Scan.start, Cursor.start, Cursor.behind, around, linesOf], rfl, rfl, rfl, rfl,
      needless_none, List.forall_mem_nil _⟩
  obtain ⟨s, settled, inside, -⟩ := begun.settle (Blanks.areBlank_lines blankBefore)
    (beginsToken_value t.inner _ _)
  obtain ⟨last, moves, done⟩ := moves_value t.inner inner inside (Blanks.areBlank_lines blankAfter)
    nothing fun scalar => by rw [collection] at scalar; cases scalar
  have atEnd : last.cursor.atEnd = true := by rw [done.cursor]; rfl
  obtain ⟨allowed, k, outer, rfl, depth, needless, -⟩ := done.exists_eq
  obtain rfl := List.length_eq_zero_iff.mp depth
  have enough : s.cursor.rest.length <
      (around Blanks.lines t.before t.after (t.inner.writtenWith Blanks.lines)).length + 1 := by
    rw [inside.cursor]
    simp only [around, Cursor.rest_behind, List.length_append, List.append_nil]
    omega
  have finished := dropCandidate_of_needless (s := ⟨.behind ([] ++ t.before.lines ++
    (t.inner.writtenWith Blanks.lines ++ t.after.lines)) [], t.inner.tokens.reverse ++ [],
    (t.inner.tokens.reverse ++ []).length, [], allowed, k, []⟩) needless
  have ran := run_of_moves moves atEnd finished settled enough
  rw [Tokens.of, ran]
  simp [Scan.tokens]

end SwaggerDoc
