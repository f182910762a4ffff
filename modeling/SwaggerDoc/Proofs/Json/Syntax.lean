import SwaggerDoc.Proofs.Data
import SwaggerDoc.Proofs.Yaml.Integers

/-!
JSON as it is written, and the data that it denotes.

A JSON text is kept with everything in which texts for the same data can differ: the blanks around
each part, and the way in which each character of a string is written. What would be no JSON cannot
be built, except that an object can have a name twice. Numbers are whole.
-/

namespace SwaggerDoc

namespace Json

/-- Blanks, as they may stand around each part. -/
structure Blanks where
  characters : Text
  blank : characters.all (fun x => x == 9 || x == 10 || x == 13 || x == 32) = true

/-- A part with blanks before and behind it. -/
structure Padded (α : Type) where
  before : Blanks
  inner : α
  after : Blanks

/-! ## Strings -/

/-- The characters that a letter behind a backslash can stand for. -/
inductive Escape where
  | quote
  | backslash
  | slash
  | backspace
  | formFeed
  | lineFeed
  | carriageReturn
  | tab
  deriving DecidableEq, Repr

/-- The letter behind the backslash. -/
def Escape.letter : Escape → CodePoint
  | .quote => 34
  | .backslash => 92
  | .slash => 47
  | .backspace => 98
  | .formFeed => 102
  | .lineFeed => 110
  | .carriageReturn => 114
  | .tab => 116

/-- The character that the letter stands for. -/
def Escape.meaning : Escape → CodePoint
  | .quote => 34
  | .backslash => 92
  | .slash => 47
  | .backspace => 8
  | .formFeed => 12
  | .lineFeed => 10
  | .carriageReturn => 13
  | .tab => 9

/-- The number of a character, or of half a character, in four hexadecimal digits. -/
structure Unit16 where
  digits : Text
  four : digits.length = 4
  hexadecimal : digits.all (fun d => (Text.hexValue? d).isSome) = true

/-- The number that the digits write. -/
def Unit16.number (u : Unit16) : Nat :=
  u.digits.foldl (fun n d => n * 16 + (Text.hexValue? d).getD 0) 0

/-- The first half of a character outside the basic plane. -/
def isHighHalf (n : Nat) : Bool := 0xD800 ≤ n && n ≤ 0xDBFF

/-- The second half of a character outside the basic plane. -/
def isLowHalf (n : Nat) : Bool := 0xDC00 ≤ n && n ≤ 0xDFFF

/-- The character that two halves make. -/
def joined (high low : Nat) : CodePoint := 0x10000 + (high - 0xD800) * 0x400 + (low - 0xDC00)

/-- A character of a string, as it is written. -/
inductive Piece where
  /-- The character itself: no control character, no quote and no backslash. -/
  | raw (x : CodePoint) (ordinary : (32 ≤ x && x != 34 && x != 92 && x < 0x110000) = true)
  | escape (e : Escape)
  | unit (u : Unit16)

namespace Piece

/-- The characters that a piece is written with. -/
def written : Piece → Text
  | .raw x _ => [x]
  | .escape e => [92, e.letter]
  | .unit u => 92 :: 117 :: u.digits

/-- What a piece stands for by itself. -/
def own : Piece → CodePoint
  | .raw x _ => x
  | .escape e => e.meaning
  | .unit u => u.number

/-- Whether two numbers behind each other are the halves of one character. -/
def arePair : Piece → Piece → Bool
  | .unit u, .unit v => isHighHalf u.number && isLowHalf v.number
  | _, _ => false

end Piece

/-- The text that pieces denote: two halves behind each other are one character. -/
def meaning : List Piece → Text
  | [] => []
  | [p] => [p.own]
  | p :: q :: rest =>
    if p.arePair q then joined p.own q.own :: meaning rest else p.own :: meaning (q :: rest)

/-- A string between its quotes. -/
def quoted (pieces : List Piece) : Text := 34 :: (pieces.flatMap Piece.written ++ [34])

/-- A name, a colon and a value. -/
structure Member (α : Type) where
  name : Padded (List Piece)
  value : Padded α

end Json

open Json

/-- A JSON value as it is written. -/
inductive Json where
  | null
  | bool (b : Bool)
  | number (negative : Bool) (digits : Text) (numeral : Yaml.Numeral digits)
  | string (pieces : List Piece)
  | emptyArray (blanks : Blanks)
  | array (first : Padded Json) (more : List (Padded Json))
  | emptyObject (blanks : Blanks)
  | object (first : Member Json) (more : List (Member Json))

/-- A JSON text: a value with blanks around it. -/
abbrev JsonText := Json.Padded Json

namespace Json

/-! ## The characters -/

/-- Characters between blanks, which are written as a function says. -/
def around (blanks : Blanks → Text) (before after : Blanks) (inner : Text) : Text :=
  blanks before ++ (inner ++ blanks after)

/-- A name between its blanks, and the colon behind it. -/
def nameWith (blanks : Blanks → Text) (name : Padded (List Piece)) : Text :=
  around blanks name.before name.after (quoted name.inner) ++ [58]

mutual

/-- The characters of a value; blanks are written as a function says. -/
def writtenWith (blanks : Blanks → Text) : Json → Text
  | .null => text "null"
  | .bool b => text (if b then "true" else "false")
  | .number negative digits _ => (if negative then [45] else []) ++ digits
  | .string pieces => quoted pieces
  | .emptyArray b => 91 :: (blanks b ++ [93])
  | .array ⟨before, v, after⟩ more =>
    91 :: (around blanks before after (v.writtenWith blanks) ++ (itemsWith blanks more ++ [93]))
  | .emptyObject b => 123 :: (blanks b ++ [125])
  | .object ⟨name, before, v, after⟩ more =>
    123 :: (nameWith blanks name ++ (around blanks before after (v.writtenWith blanks)
      ++ (membersWith blanks more ++ [125])))

/-- Items, each behind a comma. -/
def itemsWith (blanks : Blanks → Text) : List (Padded Json) → Text
  | [] => []
  | ⟨before, v, after⟩ :: rest =>
    44 :: (around blanks before after (v.writtenWith blanks) ++ itemsWith blanks rest)

/-- Members, each behind a comma. -/
def membersWith (blanks : Blanks → Text) : List (Member Json) → Text
  | [] => []
  | ⟨name, before, v, after⟩ :: rest =>
    44 :: (nameWith blanks name ++ (around blanks before after (v.writtenWith blanks)
      ++ membersWith blanks rest))

end

end Json

/-- The characters of a JSON text. -/
def JsonText.characters (t : JsonText) : Text :=
  around Blanks.characters t.before t.after (t.inner.writtenWith Blanks.characters)

namespace Json

/-! ## The data -/

mutual

/-- The data that a value denotes. -/
def data : Json → Data
  | .null => .atom .null
  | .bool b => .atom (.bool b)
  | .number negative digits _ =>
    .atom (.int (if negative then -(Text.toNat digits : Int) else Text.toNat digits))
  | .string pieces => .atom (.text (meaning pieces))
  | .emptyArray _ => .list []
  | .array ⟨_, v, _⟩ more => .list (v.data :: itemData more)
  | .emptyObject _ => .map []
  | .object ⟨name, _, v, _⟩ more => .map ((meaning name.inner, v.data) :: memberData more)

/-- The data that items denote. -/
def itemData : List (Padded Json) → List Data
  | [] => []
  | ⟨_, v, _⟩ :: rest => v.data :: itemData rest

/-- The data that members denote. -/
def memberData : List (Member Json) → List (Text × Data)
  | [] => []
  | ⟨name, _, v, _⟩ :: rest => (meaning name.inner, v.data) :: memberData rest

end

end Json

end SwaggerDoc
