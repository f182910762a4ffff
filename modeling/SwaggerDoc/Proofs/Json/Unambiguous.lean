import SwaggerDoc.Proofs.Json.Grammar
import SwaggerDoc.Proofs.Yaml.Cursor

/-!
A JSON text denotes one value.

A reader goes over the text from left to right and finds the value that the grammar lets the text
denote, whichever derivation there is (`Denotes.read?_eq`). So there is only one value
(`Denotes.unique`).
-/

namespace SwaggerDoc.Json

/-! ## The reader -/

/-- A character that can stand around a part. -/
def isBlankMark (x : CodePoint) : Bool := x == 9 || x == 10 || x == 13 || x == 32

/-- A text without the blanks in front of it. -/
def skipBlanks (t : Text) : Text := t.dropWhile isBlankMark

/-- The escape with a letter. -/
def Escape.ofLetter? (x : CodePoint) : Option Escape :=
  [.quote, .backslash, .slash, .backspace, .formFeed, .lineFeed, .carriageReturn, .tab].find?
    fun e => e.letter == x

/-- Reads the pieces of a string and the quote behind them. -/
def readPieces : Text → Option (List Piece × Text)
  | 34 :: rest => some ([], rest)
  | 92 :: 117 :: a :: b :: c :: d :: rest =>
    if hexadecimal : [a, b, c, d].all (fun d => (Text.hexValue? d).isSome) = true then
      (readPieces rest).map fun (pieces, rest) =>
        (.unit ⟨[a, b, c, d], rfl, hexadecimal⟩ :: pieces, rest)
    else none
  | 92 :: x :: rest =>
    match Escape.ofLetter? x with
    | some e => (readPieces rest).map fun (pieces, rest) => (.escape e :: pieces, rest)
    | none => none
  | x :: rest =>
    if ordinary : (32 ≤ x && x != 34 && x != 92 && x < 0x110000) = true then
      (readPieces rest).map fun (pieces, rest) => (.raw x ordinary :: pieces, rest)
    else none
  | [] => none

/-- Reads a name and the colon behind it. -/
def readName (t : Text) : Option (Text × Text) :=
  match skipBlanks t with
  | 34 :: rest =>
    match readPieces rest with
    | some (pieces, rest) =>
      match skipBlanks rest with
      | 58 :: rest => some (meaning pieces, rest)
      | _ => none
    | none => none
  | _ => none

/-- Digits and what stands behind them. -/
def readDigits (t : Text) : Text × Text := (t.takeWhile Text.isDigit, t.dropWhile Text.isDigit)

/-- Reads a minus sign if there is one. -/
def readMinus : Text → Bool × Text
  | 45 :: rest => (true, rest)
  | t => (false, t)

/-- Reads a fraction if there is one. -/
def readFraction : Text → Option Text × Text
  | 46 :: rest => (some (readDigits rest).1, (readDigits rest).2)
  | t => (none, t)

/-- Reads the sign of an exponent if there is one. -/
def readSign : Text → Bool × Text
  | 43 :: rest => (false, rest)
  | t => readMinus t

/-- Reads an exponent if there is one. -/
def readExponent : Text → Option Int × Text
  | c :: rest =>
    if c = 101 ∨ c = 69 then
      let (negative, rest) := readSign rest
      let (digits, rest) := readDigits rest
      (some (if negative then -(Text.toNat digits : Int) else Text.toNat digits), rest)
    else (none, c :: rest)
  | [] => (none, [])

/-- Reads a number. -/
def readNumber (t : Text) : Option (Tree × Text) :=
  let (negative, t) := readMinus t
  let (whole, t) := readDigits t
  let (fraction, t) := readFraction t
  let (exponent, t) := readExponent t
  if whole.isEmpty then none else some (.scalar (numberOf negative whole fraction exponent), t)

mutual

/-- Reads a value. The first argument bounds the number of steps. -/
def readValue : Nat → Text → Option (Tree × Text)
  | 0, _ => none
  | n + 1, t =>
    match t with
    | 34 :: rest =>
      (readPieces rest).map fun (pieces, rest) => (textTree (meaning pieces), rest)
    | 91 :: rest =>
      match skipBlanks rest with
      | 93 :: rest => some (.list [], rest)
      | _ => (readItems n rest).map fun (items, rest) => (.list items, rest)
    | 123 :: rest =>
      match skipBlanks rest with
      | 125 :: rest => some (.map [], rest)
      | _ => (readMembers n rest).map fun (entries, rest) => (.map entries, rest)
    | 110 :: 117 :: 108 :: 108 :: rest => some (.scalar .null, rest)
    | 116 :: 114 :: 117 :: 101 :: rest => some (.scalar (.bool true), rest)
    | 102 :: 97 :: 108 :: 115 :: 101 :: rest => some (.scalar (.bool false), rest)
    | t => readNumber t

/-- Reads the items of an array and the bracket behind them. -/
def readItems : Nat → Text → Option (List Tree × Text)
  | 0, _ => none
  | n + 1, t =>
    match readValue n (skipBlanks t) with
    | none => none
    | some (v, rest) =>
      match skipBlanks rest with
      | 44 :: rest => (readItems n rest).map fun (items, rest) => (v :: items, rest)
      | 93 :: rest => some ([v], rest)
      | _ => none

/-- Reads the members of an object and the bracket behind them. -/
def readMembers : Nat → Text → Option (List (Tree × Tree) × Text)
  | 0, _ => none
  | n + 1, t =>
    match readName t with
    | none => none
    | some (name, rest) =>
      match readValue n (skipBlanks rest) with
      | none => none
      | some (v, rest) =>
        match skipBlanks rest with
        | 44 :: rest =>
          (readMembers n rest).map fun (entries, rest) => ((textTree name, v) :: entries, rest)
        | 125 :: rest => some ([(textTree name, v)], rest)
        | _ => none

end

/-- Reads a text with blanks around a value. -/
def read? (t : Text) : Option Tree :=
  match readValue (t.length + 1) (skipBlanks t) with
  | some (v, rest) => if (skipBlanks rest).isEmpty then some v else none
  | none => none

/-! ## Blanks and strings -/

section Parts

variable {t rest : Text}

theorem dropWhile_append_of_stop {p : CodePoint → Bool} (all : ∀ x ∈ t, p x = true)
    (stop : ∀ x ∈ rest.head?, p x = false) : (t ++ rest).dropWhile p = rest := by
  rw [List.dropWhile_append_of_pos all]
  cases rest with
  | nil => rfl
  | cons x rest => exact List.dropWhile_cons_of_neg (by simp [stop x rfl])

theorem skipBlanks_append (b : Blanks) (stop : ∀ x ∈ rest.head?, isBlankMark x = false) :
    skipBlanks (b.characters ++ rest) = rest :=
  dropWhile_append_of_stop (List.all_eq_true.mp b.blank) stop

theorem skipBlanks_append_cons (b : Blanks) (rest : Text) {x : CodePoint}
    (solid : isBlankMark x = false) : skipBlanks (b.characters ++ x :: rest) = x :: rest :=
  skipBlanks_append b fun _ first => Option.some.inj first ▸ solid

theorem Escape.ofLetter?_letter (e : Escape) : ofLetter? e.letter = some e := by
  cases e <;> rfl

theorem Escape.letter_ne (e : Escape) : e.letter ≠ 117 := by
  cases e <;> decide

/-- A string is read up to its quote. -/
theorem readPieces_written (pieces : List Piece) (rest : Text) :
    readPieces (pieces.flatMap Piece.written ++ 34 :: rest) = some (pieces, rest) := by
  induction pieces with
  | nil => rfl
  | cons p pieces ih =>
    rw [List.flatMap_cons, List.append_assoc]
    generalize pieces.flatMap Piece.written ++ 34 :: rest = later at ih
    cases p with
    | raw x ordinary =>
      have others : x ≠ 34 ∧ x ≠ 92 := by
        simp only [Bool.and_eq_true, bne_iff_ne] at ordinary
        exact ⟨ordinary.1.1.2, ordinary.1.2⟩
      simp [Piece.written, readPieces, others, ordinary, ih]
    | escape e =>
      simp [Piece.written, readPieces, e.letter_ne, e.ofLetter?_letter, ih]
    | unit u =>
      obtain ⟨digits, four, hexadecimal⟩ := u
      match digits, four with
      | [a, b, c, d], _ => simp [Piece.written, readPieces, hexadecimal, ih]

/-- A name is read up to its colon. -/
theorem readName_written (name : Padded (List Piece)) (rest : Text) :
    readName (nameWith Blanks.characters name ++ rest) = some (meaning name.inner, rest) := by
  obtain ⟨before, pieces, after⟩ := name
  have colon : skipBlanks (after.characters ++ 58 :: rest) = 58 :: rest :=
    skipBlanks_append_cons after rest rfl
  have quote (u : Text) : skipBlanks (before.characters ++ 34 :: u) = 34 :: u :=
    skipBlanks_append_cons before u rfl
  simp only [readName, nameWith, around, quoted, List.append_assoc, List.cons_append,
    List.nil_append, quote, readPieces_written, colon]

end Parts

/-! ## Numbers -/

section Numbers

variable {t rest : Text}

/-- What can stand behind a value: nothing, a blank, a comma or a closing bracket. -/
def EndsValue (rest : Text) : Prop :=
  ∀ x ∈ rest.head?, isBlankMark x = true ∨ x = 44 ∨ x = 93 ∨ x = 125

/-- What stands behind a value goes on with no number. -/
theorem EndsValue.stops (ends : EndsValue rest) :
    ∀ x ∈ rest.head?, Text.isDigit x = false ∧ x ≠ 46 ∧ x ≠ 101 ∧ x ≠ 69 := by
  intro x first
  have kind : x = 9 ∨ x = 10 ∨ x = 13 ∨ x = 32 ∨ x = 44 ∨ x = 93 ∨ x = 125 := by
    simpa [isBlankMark, or_assoc] using ends x first
  rcases kind with rfl | rfl | rfl | rfl | rfl | rfl | rfl <;> decide

theorem readDigits_append (digits : ∀ x ∈ t, Text.isDigit x = true)
    (stop : ∀ x ∈ rest.head?, Text.isDigit x = false) : readDigits (t ++ rest) = (t, rest) := by
  rw [readDigits, Yaml.Cursor.takeWhile_append_of_stop digits stop,
    dropWhile_append_of_stop digits stop]

theorem readMinus_append (negative : Bool) (other : rest.head? ≠ some 45) :
    readMinus ((if negative then [45] else []) ++ rest) = (negative, rest) := by
  cases negative with
  | true => rfl
  | false =>
    show readMinus rest = (false, rest)
    unfold readMinus
    split
    · exact absurd rfl other
    · rfl

/-- Digits begin with no sign. -/
theorem Digits.head_ne (d : Digits) (rest : Text) :
    (d.characters ++ rest).head? ≠ some 43 ∧ (d.characters ++ rest).head? ≠ some 45 := by
  obtain ⟨characters, nonempty, digit⟩ := d
  obtain ⟨c, more, rfl⟩ := List.exists_cons_of_ne_nil nonempty
  have first := digit c List.mem_cons_self
  simp only [List.cons_append, List.head?_cons, ne_eq, Option.some.injEq]
  constructor <;> rintro rfl <;> cases first

theorem readSign_append {sign : Text} (isSign : sign = [] ∨ sign = [43] ∨ sign = [45])
    (plus : rest.head? ≠ some 43) (minus : rest.head? ≠ some 45) :
    readSign (sign ++ rest) = (decide (sign = [45]), rest) := by
  rcases isSign with rfl | rfl | rfl
  · show readSign rest = (false, rest)
    unfold readSign
    split
    · exact absurd rfl plus
    · exact readMinus_append false minus
  · rfl
  · rfl

theorem readExponent_append (exponent : Option Exponent) (ends : EndsValue rest) :
    readExponent (exponent.elim [] Exponent.written ++ rest)
      = (exponent.map Exponent.value, rest) := by
  cases exponent with
  | none =>
    cases rest with
    | nil => rfl
    | cons x rest =>
      have others := (ends.stops x rfl).2.2
      simp [readExponent, others]
  | some e =>
    obtain ⟨letter, isLetter, sign, isSign, digits⟩ := e
    obtain ⟨plus, minus⟩ := digits.head_ne rest
    have signed := readSign_append isSign plus minus
    have read := readDigits_append digits.digit fun x first => (ends.stops x first).1
    simp [Exponent.written, readExponent, isLetter, signed, read, Exponent.value]

/-- An exponent goes on with no digits and no fraction. -/
theorem exponent_stops (exponent : Option Exponent) (ends : EndsValue rest) :
    ∀ x ∈ (exponent.elim [] Exponent.written ++ rest).head?, Text.isDigit x = false ∧ x ≠ 46 := by
  intro x first
  cases exponent with
  | none =>
    have stops := ends.stops x first
    exact ⟨stops.1, stops.2.1⟩
  | some e =>
    obtain rfl := Option.some.inj first
    rcases e.isLetter with same | same <;> rw [same] <;> decide

theorem readFraction_append (fraction : Option Digits)
    (stops : ∀ x ∈ rest.head?, Text.isDigit x = false ∧ x ≠ 46) :
    readFraction ((fraction.elim [] fun d => 46 :: d.characters) ++ rest)
      = (fraction.map Digits.characters, rest) := by
  cases fraction with
  | none =>
    show readFraction rest = (none, rest)
    unfold readFraction
    split
    · exact absurd rfl (stops 46 rfl).2
    · rfl
  | some d =>
    have read := readDigits_append d.digit fun x first => (stops x first).1
    simp [readFraction, read]

/-- A fraction goes on with no digits. -/
theorem fraction_stops (fraction : Option Digits)
    (stops : ∀ x ∈ rest.head?, Text.isDigit x = false ∧ x ≠ 46) :
    ∀ x ∈ ((fraction.elim [] fun d => 46 :: d.characters) ++ rest).head?,
      Text.isDigit x = false := by
  intro x first
  cases fraction with
  | none => exact (stops x first).1
  | some d =>
    obtain rfl := Option.some.inj first
    rfl

/-- A number is read up to what ends it. -/
theorem readNumber_written (n : Number) (ends : EndsValue rest) :
    readNumber (n.written ++ rest) = some (.scalar n.scalar, rest) := by
  obtain ⟨negative, whole, numeral, fraction, exponent⟩ := n
  have stops := exponent_stops exponent ends
  have digits : ∀ x ∈ whole, Text.isDigit x = true := fun x member =>
    Text.isDigit_iff.mpr (numeral.digits x member)
  have solid : whole ≠ [] := numeral.nonempty
  have noMinus (u : Text) : (whole ++ u).head? ≠ some 45 :=
    (Digits.head_ne ⟨whole, solid, digits⟩ u).2
  simp only [Number.written, List.append_assoc, readNumber, readMinus_append negative (noMinus _),
    readDigits_append digits (fraction_stops fraction stops), readFraction_append fraction stops,
    readExponent_append exponent ends]
  simp [solid, Number.scalar]

end Numbers

/-! ## Values -/

section Values

variable {w rest : Text}

/-- A number begins with a digit or a minus sign. -/
theorem Number.exists_cons (n : Number) :
    ∃ (x : Nat) (u : Text), n.written = x :: u ∧ (x = 45 ∨ 48 ≤ x ∧ x ≤ 57) := by
  obtain ⟨c, more, same, least, greatest, -⟩ := n.numeral.exists_cons
  cases sign : n.negative with
  | true => exact ⟨45, _, by rw [written, sign]; rfl, .inl rfl⟩
  | false => exact ⟨c, _, by rw [written, sign, same]; rfl, .inr ⟨least, greatest⟩⟩

/-- A value begins with no blank and no closing bracket. -/
theorem ValueDenotes.exists_cons {v : Tree} (denotes : ValueDenotes w v) :
    ∃ (x : Nat) (u : Text), w = x :: u ∧ isBlankMark x = false ∧ x ≠ 93 ∧ x ≠ 125 := by
  cases denotes with
  | number n =>
    obtain ⟨x, u, same, kind⟩ := n.exists_cons
    have solid (c : Nat) (low : c < 45) : x ≠ c := by omega
    exact ⟨x, u, same, by simp [isBlankMark, solid], by omega, by omega⟩
  | bool b => cases b <;> exact ⟨_, _, rfl, rfl, by decide, by decide⟩
  | _ => exact ⟨_, _, rfl, rfl, by decide, by decide⟩

/-- A number is no other value by its first character. -/
theorem readValue_number (n : Number) (ends : EndsValue rest) (m : Nat) :
    readValue (m + 1) (n.written ++ rest) = some (.scalar n.scalar, rest) := by
  have read := readNumber_written n ends
  obtain ⟨x, u, same, kind⟩ := n.exists_cons
  rw [same] at read ⊢
  have others : x ≠ 34 ∧ x ≠ 91 ∧ x ≠ 123 ∧ x ≠ 110 ∧ x ≠ 116 ∧ x ≠ 102 := by omega
  obtain ⟨quote, bracket, brace, n, t, f⟩ := others
  rw [List.cons_append, readValue]
  · exact read
  all_goals
    intro _ same
    exact absurd (List.cons.inj same).1 ‹_›

/-- Blanks in front of a value are skipped. -/
theorem skipBlanks_around {v : Tree} (denotes : ValueDenotes w v) (before after : Blanks)
    (rest : Text) :
    skipBlanks (around Blanks.characters before after w ++ rest)
      = w ++ (after.characters ++ rest) := by
  obtain ⟨x, u, rfl, solid, -⟩ := denotes.exists_cons
  simp only [around, List.append_assoc, List.cons_append, skipBlanks_append_cons before _ solid]

/-- Blanks with a comma or a closing bracket behind them end a value. -/
theorem endsValue_append (b : Blanks) (ends : EndsValue rest) : EndsValue (b.characters ++ rest) := by
  obtain ⟨characters, blank⟩ := b
  cases characters with
  | nil => exact ends
  | cons c more =>
    intro x first
    obtain rfl := Option.some.inj first
    exact .inl (List.all_eq_true.mp blank c List.mem_cons_self)

theorem length_around (before after : Blanks) :
    w.length ≤ (around Blanks.characters before after w).length := by
  simp only [around, List.length_append]
  omega

theorem skipBlanks_items {items : List Tree} (denote : ItemsDenote w items) (rest : Text) :
    ∀ u, skipBlanks (w ++ rest) ≠ 93 :: u := by
  intro u same
  cases denote with
  | last before after denotes =>
    rw [skipBlanks_around denotes] at same
    obtain ⟨x, u, rfl, -, other, -⟩ := denotes.exists_cons
    exact other (List.cons.inj same).1
  | cons before after denotes more =>
    rw [List.append_assoc, skipBlanks_around denotes] at same
    obtain ⟨x, u, rfl, -, other, -⟩ := denotes.exists_cons
    exact other (List.cons.inj same).1

theorem skipBlanks_members {entries : List (Tree × Tree)} (denote : MembersDenote w entries)
    (rest : Text) : ∀ u, skipBlanks (w ++ rest) ≠ 125 :: u := by
  have quote (name : Padded (List Piece)) (behind u : Text) :
      skipBlanks (nameWith Blanks.characters name ++ behind) ≠ 125 :: u := by
    obtain ⟨before, pieces, after⟩ := name
    simp only [nameWith, around, quoted, List.append_assoc, List.cons_append]
    rw [skipBlanks_append_cons before _ rfl]
    exact fun same => absurd (List.cons.inj same).1 (by decide)
  intro u
  cases denote with
  | last name before after denotes =>
    rw [List.append_assoc]
    exact quote name _ u
  | cons name before after denotes more =>
    rw [List.append_assoc]
    exact quote name _ u

mutual

/-- A value is read up to what ends it, if there are steps enough. -/
theorem ValueDenotes.readValue_eq : {w : Text} → {v : Tree} → ValueDenotes w v →
    {rest : Text} → EndsValue rest → {n : Nat} → w.length < n →
      readValue n (w ++ rest) = some (v, rest)
  | _, _, .null, _, _, _ + 1, _ => rfl
  | _, _, .bool b, _, _, _ + 1, _ => by cases b <;> rfl
  | _, _, .number m, _, ends, n + 1, _ => readValue_number m ends n
  | _, _, .string pieces, rest, _, n + 1, _ => by
    have read := readPieces_written pieces rest
    simp [quoted, readValue, read]
  | _, _, .emptyArray b, rest, _, n + 1, _ => by
    have stop : skipBlanks (b.characters ++ 93 :: rest) = 93 :: rest :=
      skipBlanks_append_cons b rest rfl
    simp [readValue, stop]
  | _, _, .array (w := w) denote, rest, _, n + 1, enough => by
    have read := denote.readItems_eq rest (n := n) (by simp at enough; omega)
    have some := skipBlanks_items denote (93 :: rest)
    rw [List.cons_append, List.append_assoc, List.singleton_append, readValue]
    split
    · exact absurd ‹_› (some _)
    · rw [read]
      rfl
  | _, _, .emptyObject b, rest, _, n + 1, _ => by
    have stop : skipBlanks (b.characters ++ 125 :: rest) = 125 :: rest :=
      skipBlanks_append_cons b rest rfl
    simp [readValue, stop]
  | _, _, .object (w := w) denote, rest, _, n + 1, enough => by
    have read := denote.readMembers_eq rest (n := n) (by simp at enough; omega)
    have some := skipBlanks_members denote (125 :: rest)
    rw [List.cons_append, List.append_assoc, List.singleton_append, readValue]
    split
    · exact absurd ‹_› (some _)
    · rw [read]
      rfl

/-- Items are read up to the bracket behind them. -/
theorem ItemsDenote.readItems_eq : {w : Text} → {items : List Tree} → ItemsDenote w items →
    (rest : Text) → {n : Nat} → w.length + 1 < n →
      readItems n (w ++ 93 :: rest) = some (items, rest)
  | _, _, .last (w := w) before after denotes, rest, n + 1, enough => by
    have short := length_around (w := w) before after
    have ends : EndsValue (93 :: rest) := by simp [EndsValue]
    have read := denotes.readValue_eq (endsValue_append after ends) (n := n) (by omega)
    have stop : skipBlanks (after.characters ++ 93 :: rest) = 93 :: rest :=
      skipBlanks_append_cons after rest rfl
    simp only [readItems, skipBlanks_around denotes, read, stop]
  | _, _, .cons (w := w) (u := u) before after denotes more, rest, n + 1, enough => by
    have short := length_around (w := w) before after
    rw [List.length_append, List.length_cons] at enough
    have ends : EndsValue (44 :: (u ++ 93 :: rest)) := by simp [EndsValue]
    have read := denotes.readValue_eq (endsValue_append after ends) (n := n) (by omega)
    have later := more.readItems_eq rest (n := n) (by omega)
    have stop := skipBlanks_append_cons after (u ++ 93 :: rest) (x := 44) rfl
    simp only [readItems, List.append_assoc, List.cons_append, skipBlanks_around denotes, read, stop,
      later, Option.map_some]

/-- Members are read up to the bracket behind them. -/
theorem MembersDenote.readMembers_eq : {w : Text} → {entries : List (Tree × Tree)} →
    MembersDenote w entries → (rest : Text) → {n : Nat} → w.length + 1 < n →
      readMembers n (w ++ 125 :: rest) = some (entries, rest)
  | _, _, .last (w := w) name before after denotes, rest, n + 1, enough => by
    have short := length_around (w := w) before after
    rw [List.length_append] at enough
    have ends : EndsValue (125 :: rest) := by simp [EndsValue]
    have read := denotes.readValue_eq (endsValue_append after ends) (n := n) (by omega)
    have stop : skipBlanks (after.characters ++ 125 :: rest) = 125 :: rest :=
      skipBlanks_append_cons after rest rfl
    simp only [readMembers, List.append_assoc, readName_written, skipBlanks_around denotes, read,
      stop]
  | _, _, .cons (w := w) (u := u) name before after denotes more, rest, n + 1, enough => by
    have short := length_around (w := w) before after
    rw [List.length_append, List.length_append, List.length_cons] at enough
    have ends : EndsValue (44 :: (u ++ 125 :: rest)) := by simp [EndsValue]
    have read := denotes.readValue_eq (endsValue_append after ends) (n := n) (by omega)
    have later := more.readMembers_eq rest (n := n) (by omega)
    have stop := skipBlanks_append_cons after (u ++ 125 :: rest) (x := 44) rfl
    simp only [readMembers, List.append_assoc, List.cons_append, readName_written,
      skipBlanks_around denotes, read, stop, later, Option.map_some]

end

variable {t : Text} {u v : Tree}

/-- The reader finds the value that a text denotes. -/
theorem Denotes.read?_eq (denotes : Denotes t v) : read? t = some v := by
  obtain ⟨before, after, w, rfl, denotes⟩ := denotes
  have short := length_around (w := w) before after
  have nothing : EndsValue [] := by simp [EndsValue]
  have read := denotes.readValue_eq (endsValue_append after nothing)
    (n := (around Blanks.characters before after w).length + 1) (by omega)
  have front := skipBlanks_around denotes before after []
  have back : skipBlanks (after.characters ++ []) = [] := skipBlanks_append after (by simp)
  rw [List.append_nil] at front
  simp only [read?, front, read, back, List.isEmpty_nil, if_true]

/-- A text denotes one value. -/
theorem Denotes.unique (first : Denotes t u) (second : Denotes t v) : u = v :=
  Option.some.inj (first.read?_eq.symm.trans second.read?_eq)

end Values

end SwaggerDoc.Json
