import SwaggerDoc.Proofs.Json.Syntax
import SwaggerDoc.Store.Tree

/-!
The grammar of JSON, with numbers of every kind.

`Json.Denotes` says of a text that it is JSON and which value it denotes, with one rule for each way
to write a value. A number without a fraction and an exponent is whole; any other number is the
nearest double. The members of an object come in the order in which they are written, and a name
can come twice.
-/

namespace SwaggerDoc.Json

/-! ## Numbers -/

/-- Decimal digits, at least one. -/
structure Digits where
  characters : Text
  nonempty : characters ≠ []
  digit : ∀ c ∈ characters, Text.isDigit c = true

/-- The exponent of a number as it is written. -/
structure Exponent where
  letter : CodePoint
  isLetter : letter = 101 ∨ letter = 69
  sign : Text
  isSign : sign = [] ∨ sign = [43] ∨ sign = [45]
  digits : Digits

/-- The characters of an exponent. -/
def Exponent.written (e : Exponent) : Text := e.letter :: (e.sign ++ e.digits.characters)

/-- The number that an exponent is. -/
def Exponent.value (e : Exponent) : Int :=
  if e.sign = [45] then -(Text.toNat e.digits.characters : Int)
  else Text.toNat e.digits.characters

/-- A number as it is written: a numeral, perhaps behind a minus sign, and perhaps a fraction and an
exponent. -/
structure Number where
  negative : Bool
  whole : Text
  numeral : Yaml.Numeral whole
  fraction : Option Digits
  exponent : Option Exponent

/-- The number with the given parts. -/
def numberOf (negative : Bool) (whole : Text) (fraction : Option Text) (exponent : Option Int) :
    Scalar :=
  match fraction, exponent with
  | none, none => .int (if negative then -(Text.toNat whole : Int) else Text.toNat whole)
  | _, _ =>
    let places := fraction.getD []
    .float (.ofDecimal negative (Text.toNat (whole ++ places)) (exponent.getD 0 - places.length))

namespace Number

/-- The characters of a number. -/
def written (n : Number) : Text :=
  (if n.negative then [45] else []) ++ (n.whole
    ++ ((n.fraction.elim [] fun d => 46 :: d.characters) ++ n.exponent.elim [] Exponent.written))

/-- The number that is written. -/
def scalar (n : Number) : Scalar :=
  numberOf n.negative n.whole (n.fraction.map Digits.characters) (n.exponent.map Exponent.value)

end Number

/-! ## Values -/

/-- A text as a value. -/
abbrev textTree (t : Text) : Tree := .scalar (.string t)

mutual

/-- The characters are written for the value. -/
inductive ValueDenotes : Text → Tree → Prop
  | null : ValueDenotes (text "null") (.scalar .null)
  | bool (b : Bool) : ValueDenotes (text (if b then "true" else "false")) (.scalar (.bool b))
  | number (n : Number) : ValueDenotes n.written (.scalar n.scalar)
  | string (pieces : List Piece) : ValueDenotes (quoted pieces) (textTree (meaning pieces))
  | emptyArray (b : Blanks) : ValueDenotes (91 :: (b.characters ++ [93])) (.list [])
  | array {w : Text} {items : List Tree} :
    ItemsDenote w items → ValueDenotes (91 :: (w ++ [93])) (.list items)
  | emptyObject (b : Blanks) : ValueDenotes (123 :: (b.characters ++ [125])) (.map [])
  | object {w : Text} {entries : List (Tree × Tree)} :
    MembersDenote w entries → ValueDenotes (123 :: (w ++ [125])) (.map entries)

/-- The characters are written for the items of an array. -/
inductive ItemsDenote : Text → List Tree → Prop
  | last (before after : Blanks) {w : Text} {v : Tree} :
    ValueDenotes w v → ItemsDenote (around Blanks.characters before after w) [v]
  | cons (before after : Blanks) {w u : Text} {v : Tree} {items : List Tree} :
    ValueDenotes w v → ItemsDenote u items →
    ItemsDenote (around Blanks.characters before after w ++ 44 :: u) (v :: items)

/-- The characters are written for the members of an object. -/
inductive MembersDenote : Text → List (Tree × Tree) → Prop
  | last (name : Padded (List Piece)) (before after : Blanks) {w : Text} {v : Tree} :
    ValueDenotes w v →
    MembersDenote (nameWith Blanks.characters name ++ around Blanks.characters before after w)
      [(textTree (meaning name.inner), v)]
  | cons (name : Padded (List Piece)) (before after : Blanks) {w u : Text} {v : Tree}
    {entries : List (Tree × Tree)} :
    ValueDenotes w v → MembersDenote u entries →
    MembersDenote
      (nameWith Blanks.characters name ++ (around Blanks.characters before after w ++ 44 :: u))
      ((textTree (meaning name.inner), v) :: entries)

end

/-- The text is JSON and denotes the value: there are blanks around the value, and nothing else. -/
def Denotes (t : Text) (v : Tree) : Prop :=
  ∃ before after w, t = around Blanks.characters before after w ∧ ValueDenotes w v

/-- The text is JSON. -/
def IsJson (t : Text) : Prop := ∃ v, Denotes t v

end SwaggerDoc.Json
