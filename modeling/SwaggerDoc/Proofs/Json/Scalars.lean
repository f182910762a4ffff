import SwaggerDoc.Proofs.Json.Portable

/-!
The strings and words of JSON between the brackets of YAML.

A portable string is read as the text that it denotes (`Json.quoted_eq`), whichever way its
characters are written. A word or a number goes on up to the blanks behind it, and these are passed
up to what follows (`Lexeme.plain_word`).
-/

namespace SwaggerDoc

open Yaml Yaml.Lexeme

namespace Json

/-! ## Strings -/

section Strings

variable {read rest t : Text} {d : Cursor}

/-- What waits in front of a character: spaces, or line breaks that stay what they are. -/
inductive IsGap : Text → Prop
  | spaces (m : Nat) : IsGap (List.replicate m 32)
  | breaks {b : CodePoint} {bs : Text}
    (ends : ∀ x ∈ b :: bs, isBreak x = true ∧ x ≠ 10 ∧ x ≠ 0x85) : IsGap (b :: bs)

theorem keepsBreaks_of_append {u : Text} (keeps : keepsBreaks (u ++ t) = true) :
    keepsBreaks t = true := by
  induction u with
  | nil => exact keeps
  | cons x u ih =>
    refine ih ?_
    rw [List.cons_append] at keeps
    cases w : u ++ t with
    | nil => rfl
    | cons y w =>
      rw [w] at keeps
      simp only [keepsBreaks, Features.adjacent, marksNothing, Bool.and_eq_true,
        Bool.not_eq_true', Bool.or_eq_false_iff] at keeps ⊢
      exact ⟨⟨keeps.1.1.2, keeps.1.2.2⟩, keeps.2.2⟩

/-- No blank stands beside a line break. -/
theorem apart_of_keepsBreaks {u : Text} {x y : CodePoint}
    (keeps : keepsBreaks (u ++ x :: y :: t) = true) :
    ¬ (isBreak x = true ∧ y = 32) ∧ ¬ (x = 32 ∧ isBreak y = true) := by
  have here := keepsBreaks_of_append keeps
  simp only [keepsBreaks, Features.adjacent, Bool.and_eq_true, Bool.not_eq_true',
    Bool.or_eq_false_iff] at here
  constructor
  · rintro ⟨ends, rfl⟩
    simpa [ends] using here.1.1.1
  · rintro ⟨rfl, ends⟩
    simpa [ends] using here.1.2.1

/-- A space or a line break that comes to what waits has its like in front of it. -/
theorem IsGap.snoc {gap : Text} {x : CodePoint} (isGap : IsGap gap)
    (kind : x = 32 ∨ isBreak x = true ∧ x ≠ 10 ∧ x ≠ 0x85)
    (keeps : keepsBreaks (gap ++ x :: t) = true) : IsGap (gap ++ [x]) := by
  cases isGap with
  | spaces m =>
    rcases kind with rfl | ends
    · rw [← List.replicate_succ']
      exact .spaces (m + 1)
    · cases m with
      | zero => exact .breaks (List.forall_mem_singleton.mpr ends)
      | succ m =>
        rw [List.replicate_succ', List.append_assoc] at keeps
        exact absurd ⟨rfl, ends.1⟩ (apart_of_keepsBreaks keeps).2
  | @breaks b bs ends =>
    rcases kind with rfl | more
    · obtain ⟨init, last, same⟩ := (b :: bs).eq_nil_or_concat'.resolve_left (List.cons_ne_nil _ _)
      rw [same] at keeps ends
      rw [List.append_assoc] at keeps
      exact absurd ⟨(ends last (by simp)).1, rfl⟩ (apart_of_keepsBreaks keeps).1
    · exact .breaks (List.forall_mem_append.mpr ⟨ends, List.forall_mem_singleton.mpr more⟩)

/-- Whether a document is marked at the start of a line is settled in front of the quote. -/
theorem atDocument_quote (u : Text) :
    (Cursor.start (u ++ 34 :: rest)).atDocument = (Cursor.start (u ++ [34])).atDocument := by
  match u with
  | [] | [a] | [a, b] | [a, b, c] | a :: b :: c :: e :: u =>
    simp [Cursor.atDocument, Cursor.atMark, Cursor.start, Cursor.peekAt]

/-- Behind the line breaks that wait no document is marked. -/
theorem atDocument_of_keepsBreaks (rest : Text) {gap u : Text}
    (keeps : keepsBreaks (gap ++ (u ++ [34])) = true) :
    ∀ b ∈ gap.getLast?, isBreak b = true → (Cursor.start (u ++ 34 :: rest)).atDocument = false := by
  intro b last ends
  obtain ⟨init, rfl⟩ := List.getLast?_eq_some_iff.mp last
  rw [List.append_assoc] at keeps
  have here := keepsBreaks_of_append keeps
  simp only [keepsBreaks, List.singleton_append, marksNothing, ends, Bool.true_and,
    Bool.and_eq_true, Bool.not_eq_true'] at here
  rw [atDocument_quote]
  exact here.2.1

/-- What waits in front of what has been read is kept. -/
theorem quotedFrom_gap {gap : Text} {k : Nat} (isGap : IsGap gap) (solid : BeginsSolid rest)
    (some : rest ≠ [])
    (outside : ∀ b ∈ gap.getLast?, isBreak b = true → (Cursor.start rest).atDocument = false)
    (later : ∀ n, k < n → quotedFrom 34 n (.behind (read ++ gap) rest) = .ok (t, d))
    {n : Nat} (enough : gap.length + k < n) :
    quotedFrom 34 n (.behind read (gap ++ rest)) = .ok (gap ++ t, d) := by
  cases isGap with
  | spaces m =>
    rw [List.length_replicate] at enough
    cases m with
    | zero => simpa using later n (by omega)
    | succ m =>
      obtain ⟨n, rfl⟩ : ∃ j, n = j + 1 := ⟨n - 1, by omega⟩
      exact quotedFrom_piece (by decide) rfl (blanksBetween_spaces (m + 1) read solid some)
        (later n (by omega))
  | @breaks b bs ends =>
    have breaks : ∀ x ∈ b :: bs, isBreak x = true := fun x member => (ends x member).1
    have first : b ≠ 10 := (ends b List.mem_cons_self).2.1
    have lineStart : columnAfter 0 (read ++ b :: bs) = 0 := by
      rw [columnAfter_append, columnAfter_breaks breaks]
    have inside : (Cursor.behind (read ++ b :: bs) (List.replicate 0 32 ++ rest)).atDocument =
        false := by
      have starts := outside _ (List.getLast?_eq_some_getLast (List.cons_ne_nil b bs))
        (breaks _ (List.getLast_mem _))
      rw [← starts]
      simp only [Cursor.atDocument, Cursor.atMark, Cursor.column_behind, lineStart]
      rfl
    rw [List.length_cons] at enough
    obtain ⟨n, rfl⟩ : ∃ j, n = j + 1 := ⟨n - 1, by omega⟩
    have found := quotedFrom_breaks rfl (fun x member => ⟨breaks x member, (ends x member).2.2⟩)
      inside solid (by simpa using later n (by omega))
    simpa [folded, first] using found

theorem escapeSequence_letter (e : Escape) (read rest : Text) :
    escapeSequence (.behind read (92 :: e.letter :: rest)) =
      .ok ([e.meaning], .behind (read ++ [92, e.letter]) rest) := by
  have ahead : (Cursor.behind read (92 :: e.letter :: rest)).peekAt 1 = e.letter := rfl
  have known : escaped? e.letter = some e.meaning := by cases e <;> decide
  simp only [escapeSequence, ahead, known]
  exact congrArg (fun c => Except.ok ([e.meaning], c)) (Cursor.advance_behind [92, e.letter])

theorem mapM_hexValue? {digits : Text}
    (hexadecimal : digits.all (fun d => (Text.hexValue? d).isSome) = true) :
    digits.mapM Text.hexValue? = some (digits.map fun d => (Text.hexValue? d).getD 0) := by
  induction digits with
  | nil => rfl
  | cons d digits ih =>
    simp only [List.all_cons, Bool.and_eq_true] at hexadecimal
    obtain ⟨n, value⟩ := Option.isSome_iff_exists.mp hexadecimal.1
    simp [value, ih hexadecimal.2]

theorem hexValue?_lt {d : CodePoint} : (Text.hexValue? d).getD 0 < 16 := by
  unfold Text.hexValue?
  dsimp only [CodePoint] at *
  split
  · next range => simp at range ⊢; omega
  · split
    · next range => simp at range ⊢; omega
    · split
      · next range => simp at range ⊢; omega
      · decide

theorem Unit16.number_lt (u : Unit16) : u.number < 0x10000 := by
  obtain ⟨digits, four, hexadecimal⟩ := u
  match digits, four with
  | [a, b, c, e], _ =>
    have first := hexValue?_lt (d := a)
    have second := hexValue?_lt (d := b)
    have third := hexValue?_lt (d := c)
    have fourth := hexValue?_lt (d := e)
    simp only [number, List.foldl_cons, List.foldl_nil]
    omega

theorem escapeSequence_unit (u : Unit16) (read rest : Text) :
    escapeSequence (.behind read (92 :: 117 :: (u.digits ++ rest))) =
      .ok ([u.number], .behind (read ++ 92 :: 117 :: u.digits) rest) := by
  refine escapeSequence_number 117 (by decide) (by rw [u.four]; rfl)
    (mapM_hexValue? u.hexadecimal) (by simp) ?_ (Nat.lt_trans u.number_lt (by decide))
  rw [List.foldl_map]
  rfl

/-- A piece that waits in front of the next one: a space or a line break. -/
def Piece.Waits (p : Piece) : Prop := ∃ x, p.written = [x] ∧ (x = 32 ∨ isBreak x = true)

theorem Piece.Waits.exists_kind {p : Piece} (waits : p.Waits) (portable : p.isPortable = true) :
    ∃ x, p.written = [x] ∧ p.own = x ∧ (x = 32 ∨ isBreak x = true ∧ x ≠ 10 ∧ x ≠ 0x85) := by
  obtain ⟨x, written, kind⟩ := waits
  cases p with
  | raw y ordinary =>
    obtain rfl := List.head_eq_of_cons_eq written
    refine ⟨y, rfl, rfl, kind.imp_right fun ends => ⟨ends, ?_, ?_⟩⟩
    · rintro rfl
      cases ordinary
    · rintro rfl
      cases portable
  | escape e | unit u => cases written

/-- A piece that does not wait begins with no blank and no line break. -/
theorem Piece.beginsSolid_written {p : Piece} (solid : ¬ p.Waits) (rest : Text) :
    BeginsSolid (p.written ++ rest) := by
  intro y head
  cases p with
  | raw x ordinary =>
    obtain rfl := Option.some.inj head
    have noBreak : isBreak x = false :=
      Bool.eq_false_iff.mpr fun ends => solid ⟨x, rfl, .inr ends⟩
    have noSpace : x ≠ 32 := fun same => solid ⟨x, rfl, .inl same⟩
    simp only [Bool.and_eq_true, decide_eq_true_eq] at ordinary
    have least := ordinary.1.1.1
    simp only [isSeparator, noBreak, Bool.or_false, Bool.or_eq_false_iff, beq_eq_false_iff_ne]
    dsimp only [CodePoint] at *
    omega
  | escape e | unit u =>
    obtain rfl := Option.some.inj head
    rfl

theorem quotedFrom_one {p : Piece} (solid : ¬ p.Waits) {k : Nat}
    (later : ∀ n, k < n → quotedFrom 34 n (.behind (read ++ p.written) rest) = .ok (t, d))
    {n : Nat} (enough : k + 1 < n) :
    quotedFrom 34 n (.behind read (p.written ++ rest)) = .ok (p.own :: t, d) := by
  obtain ⟨n, rfl⟩ : ∃ j, n = j + 1 := ⟨n - 1, by omega⟩
  cases p with
  | raw x ordinary =>
    by_cases single : x = 39
    · subst single
      refine quotedFrom_piece (t := [39]) (c := .behind (read ++ [39]) rest) (by decide) rfl ?_
        (later n (by omega))
      rw [pieceAt, Cursor.peek_behind_cons, Cursor.next_behind_cons]
      rfl
    · have ink := Piece.beginsSolid_written solid rest x rfl
      simp only [Bool.and_eq_true, bne_iff_ne] at ordinary
      refine quotedFrom_cons ?_ (later (n + 1) (by omega))
      simp [isOrdinary, ink, text, single, ordinary.1.1.2, ordinary.1.2]
  | escape e =>
    exact quotedFrom_piece (t := [e.meaning]) (by decide) rfl (escapeSequence_letter e read rest)
      (later n (by omega))
  | unit u =>
    exact quotedFrom_piece (t := [u.number]) (by decide) rfl (escapeSequence_unit u read rest)
      (later n (by omega))

/-- Pieces are read one by one; spaces or line breaks that are waiting in front of them are read
together. -/
theorem quotedFrom_pieces {pieces : List Piece} (portable : ∀ p ∈ pieces, p.isPortable = true)
    {gap : Text} (isGap : IsGap gap)
    (keeps : keepsBreaks (gap ++ (pieces.flatMap Piece.written ++ [34])) = true)
    (read rest : Text) {n : Nat} (fuel : gap.length + (pieces.flatMap Piece.written).length < n) :
    quotedFrom 34 n (.behind read (gap ++ (pieces.flatMap Piece.written ++ 34 :: rest))) =
      .ok (gap ++ pieces.map Piece.own,
        .behind (read ++ gap ++ pieces.flatMap Piece.written ++ [34]) rest) := by
  induction pieces generalizing gap read n with
  | nil =>
    have solid : BeginsSolid (34 :: rest) := fun x head => Option.some.inj head ▸ rfl
    refine quotedFrom_gap isGap solid (List.cons_ne_nil _ _) (k := 0)
      (atDocument_of_keepsBreaks rest keeps) (fun n enough => ?_) (by simpa using fuel)
    obtain ⟨n, rfl⟩ := Nat.exists_eq_add_of_lt enough
    have closes : quotedFrom 34 (0 + n + 1) (.behind (read ++ gap) (34 :: rest)) =
        .ok ([], .behind (read ++ gap ++ [34]) rest) := quotedFrom_close (by decide) rfl
    simpa using closes
  | cons p pieces ih =>
    obtain ⟨first, later⟩ := List.forall_mem_cons.mp portable
    have length : ((p :: pieces).flatMap Piece.written).length =
        p.written.length + (pieces.flatMap Piece.written).length := by simp
    rw [length] at fuel
    by_cases waits : p.Waits
    · -- One more blank or line break is waiting.
      obtain ⟨x, written, own, kind⟩ := waits.exists_kind first
      rw [written, List.length_singleton] at fuel
      rw [List.flatMap_cons, written, List.append_assoc, List.singleton_append] at keeps
      have waiting := ih later (isGap.snoc kind keeps) (by simpa using keeps) read (n := n)
        (by rw [List.length_append, List.length_singleton]; omega)
      simpa [written, own] using waiting
    · have some : p.written ≠ [] := by cases p <;> exact List.cons_ne_nil _ _
      have positive := List.length_pos_iff.mpr some
      have outside := atDocument_of_keepsBreaks rest keeps
      rw [List.flatMap_cons, List.append_assoc] at outside ⊢
      refine quotedFrom_gap isGap (Piece.beginsSolid_written waits _) (by simp [some]) outside
        (k := (pieces.flatMap Piece.written).length + 1) (fun n enough => ?_) (by omega)
      refine quotedFrom_one waits (k := (pieces.flatMap Piece.written).length)
        (fun n enough => ?_) enough
      rw [List.flatMap_cons, List.append_assoc, ← List.append_assoc gap] at keeps
      have others := ih later (.spaces 0) (keepsBreaks_of_append keeps) (read ++ gap ++ p.written)
        (n := n) (by simpa using enough)
      simpa using others

/-- Without halves every piece stands for its own character. -/
theorem meaning_eq {pieces : List Piece} (noPair : hasNoPair pieces = true) :
    meaning pieces = pieces.map Piece.own := by
  induction pieces with
  | nil => rfl
  | cons p pieces ih =>
    cases pieces with
    | nil => rfl
    | cons q pieces =>
      simp only [hasNoPair, Bool.and_eq_true, Bool.not_eq_true'] at noPair
      rw [meaning, noPair.1, if_neg Bool.false_ne_true, ih noPair.2]
      rfl

/-- A portable string is read as the text that it denotes. -/
theorem quoted_eq {pieces : List Piece} (portable : arePortable pieces = true)
    (read rest : Text) :
    Lexeme.quoted 34 (.behind read (quoted pieces ++ rest)) =
      .ok (meaning pieces, .behind (read ++ quoted pieces) rest) := by
  simp only [arePortable, Bool.and_eq_true] at portable
  obtain ⟨⟨all, noPair⟩, keeps⟩ := portable
  have found := quotedFrom_pieces (List.all_eq_true.mp all) (.spaces 0)
    (keepsBreaks_of_append (u := [34]) keeps) (read ++ [34]) rest
    (n := (quoted pieces ++ rest).length + 1) (by
      simp only [quoted, List.length_append, List.length_cons, List.length_replicate]
      omega)
  rw [Lexeme.quoted, meaning_eq noPair]
  simpa [quoted] using found

end Strings

end Json

namespace Yaml

/-! ## Words -/

section Words

/-- A character of a number or of a name for nothing or a truth value. -/
def IsWordCharacter (x : CodePoint) : Prop := x = 45 ∨ 48 ≤ x ∧ x ≤ 57 ∨ 97 ≤ x ∧ x ≤ 122

/-- A word that begins with a letter or a digit, perhaps behind a hyphen. -/
structure IsWord (w : Text) : Prop where
  characters : ∀ x ∈ w, IsWordCharacter x
  begins : ∃ x v, w = x :: v ∧ (x = 45 → ∃ y u, v = y :: u ∧ y ≠ 45)

/-- What ends a part between brackets. -/
def EndsPart (rest : Text) : Prop := ∃ x more, rest = x :: more ∧ (x = 44 ∨ x = 93 ∨ x = 125)

variable {read rest gap w : Text} {x : CodePoint}

theorem IsWordCharacter.solid (inside : IsWordCharacter x) : isSeparator x = false := by
  simp only [isSeparator, isBreak, Bool.or_eq_false_iff, beq_eq_false_iff_ne]
  unfold IsWordCharacter at inside
  dsimp only [CodePoint] at *
  omega

/-- Neither blanks nor structure are among the characters of words. -/
theorem IsWordCharacter.not_mem (inside : IsWordCharacter x) {us : Text}
    (others : ∀ y ∈ us, y < 45 ∨ 45 < y ∧ y < 48 ∨ 57 < y ∧ y < 97 ∨ 122 < y) : x ∉ us := by
  intro member
  have range := others x member
  unfold IsWordCharacter at inside
  dsimp only [CodePoint] at *
  omega

theorem EndsPart.beginsToken (ends : EndsPart rest) : BeginsToken rest := by
  obtain ⟨x, more, rfl, rfl | rfl | rfl⟩ := ends <;> exact beginsToken_cons more (by decide)

namespace Lexeme

/-- A word ends at blanks, and where the part between brackets ends. -/
theorem plainWord_flow (word : ∀ x ∈ w, IsWordCharacter x) (blank : AreBlank gap)
    (ends : EndsPart rest) : plainWord true (w ++ (gap ++ rest)) = w := by
  induction w with
  | nil =>
    cases gap with
    | nil => obtain ⟨x, more, rfl, rfl | rfl | rfl⟩ := ends <;> rfl
    | cons y gap => rcases blank y List.mem_cons_self with rfl | rfl <;> rfl
  | cons x w ih =>
    obtain ⟨first, later⟩ := List.forall_mem_cons.mp word
    have noColon : x ∉ ([58] : Text) := first.not_mem (by decide)
    have noStructure : x ∉ text ",?[]\x7b\x7d" := first.not_mem (by decide)
    have goesOn : (isSeparator x || (x == 58 && endsAtColon true ((w ++ (gap ++ rest)).headD 0))
        || (true && (text ",?[]\x7b\x7d").contains x)) = false := by
      simp only [List.mem_singleton] at noColon
      simp [first.solid, noColon, noStructure]
    rw [List.cons_append, plainWord, goesOn, ih later]
    rfl

/-- Blanks in front of the end of a part end no document. -/
theorem atDocument_gap (blank : AreBlank gap) (ends : EndsPart rest) (read : Text) :
    (Cursor.behind read (gap ++ rest)).atDocument = false := by
  refine Cursor.atDocument_eq_false (.inr fun y head => ?_)
  cases gap with
  | nil =>
    obtain ⟨x, more, rfl, closes⟩ := ends
    obtain rfl := Option.some.inj head
    rcases closes with rfl | rfl | rfl <;> decide
  | cons x gap =>
    obtain rfl := Option.some.inj head
    rcases blank x List.mem_cons_self with rfl | rfl <;> decide

/-- Line breaks and blanks are passed together. -/
theorem exists_breaks (blank : AreBlank gap) (ends : EndsPart rest) (read : Text) {n : Nat}
    (enough : gap.length < n) : ∃ passed,
      Breaks.from (· == 32) n (.behind read (gap ++ rest)) =
        ⟨passed, .behind (read ++ gap) rest, false⟩ := by
  induction gap generalizing read n with
  | nil =>
    obtain ⟨n, rfl⟩ := Nat.exists_eq_add_of_lt enough
    have token := ends.beginsToken
    have outside := atDocument_gap blank ends read
    have skips : (Cursor.behind read rest).skip (· == 32) = .behind read rest :=
      Cursor.skip_behind_stop fun x head => (isSpace_of_solid (token.solid x head)).1
    have none : (Cursor.behind read rest).lineBreak? = none :=
      Cursor.lineBreak?_eq_none _ fun x head => (isSpace_of_solid (token.solid x head)).2
    rw [List.nil_append] at outside
    exact ⟨[], by simp [Breaks.from, outside, skips, none]⟩
  | cons x gap ih =>
    obtain ⟨n, rfl⟩ := Nat.exists_eq_add_of_lt enough
    obtain ⟨first, later⟩ := List.forall_mem_cons.mp blank
    have outside := atDocument_gap blank ends read
    have read_eq : read ++ x :: gap = read ++ [x] ++ gap := by simp
    rw [read_eq]
    rcases first with rfl | rfl
    · have outside' := atDocument_gap later ends (read ++ [32])
      have skips : (Cursor.behind read (32 :: (gap ++ rest))).skip (· == 32) =
          (Cursor.behind (read ++ [32]) (gap ++ rest)).skip (· == 32) :=
        Scan.skipSpaces_space read (gap ++ rest)
      have same : Breaks.from (· == 32) ((32 :: gap).length + n + 1)
            (.behind read (32 :: gap ++ rest)) =
          Breaks.from (· == 32) ((32 :: gap).length + n + 1)
            (.behind (read ++ [32]) (gap ++ rest)) := by
        simp only [List.cons_append] at outside ⊢
        simp only [Breaks.from, outside, outside', skips, Bool.false_eq_true, if_false]
      rw [same]
      exact ih later (read ++ [32]) (by simp only [List.length_cons]; omega)
    · obtain ⟨passed, more⟩ := ih later (read ++ [10]) (n := (10 :: gap).length + n)
        (by simp only [List.length_cons]; omega)
      have stays : (Cursor.behind read (10 :: (gap ++ rest))).skip (· == 32) =
          .behind read (10 :: (gap ++ rest)) :=
        Cursor.skip_behind_stop fun y head => Option.some.inj head ▸ rfl
      have breaks : (Cursor.behind read (10 :: (gap ++ rest))).lineBreak? =
          some (10, .behind (read ++ [10]) (gap ++ rest)) := Cursor.lineBreak?_behind_cons rfl
      refine ⟨10 :: passed, ?_⟩
      rw [List.cons_append] at outside ⊢
      simp only [Breaks.from, outside, stays, breaks, more, Bool.false_eq_true, if_false]

/-- Behind a word the blanks are passed, whatever they come to inside a scalar. -/
theorem exists_plainGap (blank : AreBlank gap) (ends : EndsPart rest) (read : Text) :
    ∃ found broke, plainGap (.behind read (gap ++ rest)) =
      ⟨found, .behind (read ++ gap) rest, broke⟩ := by
  have token := ends.beginsToken
  obtain ⟨m, more, rfl, front⟩ : ∃ m more, gap = List.replicate m 32 ++ more ∧
      (more = [] ∨ ∃ later, more = 10 :: later) := by
    clear ends token
    induction gap with
    | nil => exact ⟨0, [], rfl, .inl rfl⟩
    | cons x gap ih =>
      obtain ⟨first, later⟩ := List.forall_mem_cons.mp blank
      rcases first with rfl | rfl
      · obtain ⟨m, more, rfl, front⟩ := ih later
        exact ⟨m + 1, more, rfl, front⟩
      · exact ⟨0, _, rfl, .inr ⟨gap, rfl⟩⟩
  rcases front with rfl | ⟨later, rfl⟩
  · have passes := plainGap_spaces read m token.solid
    exact ⟨_, _, by simpa using passes⟩
  · have blankLater : AreBlank later := fun x member => blank x (by simp [member])
    have spaces : ∀ x ∈ List.replicate m 32, (x == 32) = true := by
      intro x member
      rw [List.eq_of_mem_replicate member]
      rfl
    have feed : ∀ x ∈ (10 :: (later ++ rest)).head?, (x == 32) = false := by
      intro x head
      obtain rfl := Option.some.inj head
      rfl
    have spans := Cursor.span_behind read spaces feed
    have breaks : (Cursor.behind (read ++ List.replicate m 32) (10 :: (later ++ rest))).lineBreak? =
        some (10, .behind (read ++ List.replicate m 32 ++ [10]) (later ++ rest)) :=
      Cursor.lineBreak?_behind_cons rfl
    obtain ⟨passed, more⟩ := exists_breaks blankLater ends (read ++ List.replicate m 32 ++ [10])
      (n := (later ++ rest).length + 1) (by simp only [List.length_append]; omega)
    have read_eq : read ++ (List.replicate m 32 ++ 10 :: later) =
        read ++ List.replicate m 32 ++ [10] ++ later := by simp
    refine ⟨folded 10 passed, true, ?_⟩
    rw [List.append_assoc, List.cons_append, read_eq, plainGap, spans]
    simp only [breaks, Cursor.rest_behind, more, Bool.false_eq_true, if_false]

/-- A word between brackets is read, with the blanks behind it. -/
theorem plain_word (word : IsWord w) (blank : AreBlank gap) (ends : EndsPart rest) (read : Text) :
    ∃ broke, plain true 0 (.behind read (w ++ (gap ++ rest))) =
      ⟨w, .behind (read ++ w ++ gap) rest, broke⟩ := by
  obtain ⟨x, v, same, -⟩ := word.begins
  have nonempty : w.isEmpty = false := by rw [same]; rfl
  have noComment : (Cursor.behind read (w ++ (gap ++ rest))).peek ≠ 35 := by
    have first := word.characters x (by simp [same])
    rw [same]
    rintro rfl
    have other : 35 ∉ ([35] : Text) := first.not_mem (by decide)
    exact other (List.mem_singleton_self _)
  have found := plainWord_flow word.characters blank ends
  obtain ⟨spaces, broke, passed⟩ := exists_plainGap blank ends (read ++ w)
  -- What follows the blanks ends the scalar, so that they do not count.
  have stops (n : Nat) : plainFrom true 0 n ⟨spaces, .behind (read ++ w ++ gap) rest, broke⟩ =
      ⟨[], .behind (read ++ w ++ gap) rest, broke⟩ := by
    cases n with
    | zero => rfl
    | succ n =>
      have none : plainWord true ([] ++ ([] ++ rest)) = [] :=
        plainWord_flow (List.forall_mem_nil _) (List.forall_mem_nil _) ends
      simp only [List.nil_append] at none
      simp [plainFrom, none]
  refine ⟨broke, ?_⟩
  rw [plain, plainFrom]
  simp only [if_neg noComment, Cursor.rest_behind, found, nonempty, Cursor.advance_behind, passed,
    Bool.false_eq_true, if_false, stops]
  split <;> simp

end Lexeme

namespace Scan

variable {depth : Nat} {found : List Token} {s : Scan}

/-- A word is read as a scalar without quotes. -/
theorem Inside.step_eq_plain (inside : s.Inside (depth + 1) read (w ++ rest) found)
    (word : IsWord w) : s.step = s.plain := by
  obtain ⟨allowed, k, outer, rfl, depth_eq, -, -⟩ := inside.exists_eq
  obtain ⟨o, outer, rfl⟩ := List.exists_cons_of_length_eq_add_one depth_eq
  obtain ⟨x, v, rfl, behind⟩ := word.begins
  have first := word.characters x List.mem_cons_self
  have special : x ∉ ([37, 46, 91, 123, 93, 125, 44, 63, 58, 42, 38, 33, 124, 62, 39, 34] : Text) :=
    first.not_mem (by decide)
  simp only [List.mem_cons, List.not_mem_nil, or_false, not_or] at special
  have noEnd : (Cursor.behind read (x :: (v ++ rest))).atMark 46 = false := atMark_of_ne special.2.1
  -- A hyphen has a digit behind it: it begins neither an item nor a document.
  have hyphen : x = 45 →
      isSeparator ((v ++ rest).headD 0) = false ∧ (v ++ rest).head? ≠ some 45 := by
    intro same
    obtain ⟨y, u, rfl, other⟩ := behind same
    exact ⟨(word.characters y (by simp)).solid, fun h => other (Option.some.inj h)⟩
  have noStart : (Cursor.behind read (x :: (v ++ rest))).atMark 45 = false := by
    by_cases same : x = 45
    · obtain ⟨-, other⟩ := hyphen same
      have taken : ((x :: (v ++ rest)).take 3 == [45, 45, 45]) = false := by
        refine beq_eq_false_iff_ne.mpr fun equal => other ?_
        cases rest' : v ++ rest with
        | nil => rw [rest'] at equal; simp at equal
        | cons y more => rw [rest'] at equal; simp at equal; simp [equal.2.1]
      simp only [Cursor.atMark, Cursor.rest_behind, taken, Bool.and_false, Bool.false_and]
    · exact atMark_of_ne same
  have separated : (Cursor.behind read (x :: (v ++ rest))).peekAt 1 = (v ++ rest).headD 0 :=
    getD_one x (v ++ rest)
  have starts : Lexeme.startsPlain true (.behind read (x :: (v ++ rest))) = true := by
    have peek : (Cursor.behind read (x :: (v ++ rest))).peek = x := rfl
    by_cases same : x = 45
    · simp only [Lexeme.startsPlain, peek, separated, (hyphen same).1]
      simp [same]
    · have others : x ∉ text "?:,[]\x7b\x7d#&*!|>'\"%@`" := first.not_mem (by decide)
      have listed : text "-?:,[]\x7b\x7d#&*!|>'\"%@`" = 45 :: text "?:,[]\x7b\x7d#&*!|>'\"%@`" := by
        decide
      simp [Lexeme.startsPlain, peek, first.solid, listed, same, others]
  have noItem : (decide (x = 45) && isSeparator ((v ++ rest).headD 0)) = false := by
    by_cases same : x = 45
    · rw [(hyphen same).1, Bool.and_false]
    · rw [decide_eq_false same, Bool.false_and]
  unfold step
  dsimp only [List.cons_append]
  have peek : (Cursor.behind read (x :: (v ++ rest))).peek = x := rfl
  have inside : inFlow ⟨.behind read (x :: (v ++ rest)), found, found.length, [], allowed, k,
    o :: outer⟩ = true := rfl
  simp only [peek, separated, noStart, noEnd, starts, inside, noItem]
  simp [special]

/-- A word and the blanks behind it. -/
theorem Inside.moves_word (inside : s.Inside (depth + 1) read (w ++ (gap ++ rest)) found)
    (word : IsWord w) (blank : AreBlank gap) (ends : EndsPart rest) :
    ∃ t, Moves s t ∧ t.Inside (depth + 1) (read ++ w ++ gap) rest (.scalar true w :: found) := by
  obtain ⟨broke, plain⟩ := Lexeme.plain_word word blank ends read
  obtain ⟨u, step, after⟩ := inside.step_plain (inside.step_eq_plain word) plain
  obtain ⟨x, v, rfl, -⟩ := word.begins
  have nonzero : x ≠ 0 := by
    rintro rfl
    cases (word.characters 0 List.mem_cons_self).solid
  have none : AreBlank [] := List.forall_mem_nil _
  have after : u.Inside _ _ ([] ++ rest) _ := after
  have shorter : rest.length ≤ (v ++ (gap ++ rest)).length := by
    simp only [List.length_append]
    omega
  obtain ⟨t, moves, inside', -⟩ := inside.moves nonzero step after shorter none ends.beginsToken
  exact ⟨t, moves, by simpa using inside'⟩

end Scan

end Words

end Yaml

end SwaggerDoc
