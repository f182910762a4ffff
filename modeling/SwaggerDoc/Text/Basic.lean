/-!
Texts as lists of character codes.

A text may hold the lone half of a surrogate pair, which an escape in a resource file can produce
and which no `String` can hold, so a character is its code number and nothing else. The operations
here are the ones that reading and writing documents share: cutting a text at a separator, trimming
its ends, and writing numbers.
-/

namespace SwaggerDoc

/-- The number of a character. Lone surrogate halves are admitted. -/
abbrev CodePoint := Nat

/-- A sequence of characters. -/
abbrev Text := List CodePoint

/-- The characters of a string. -/
def text (s : String) : Text := s.toList.map Char.toNat

namespace Text

/-- The half of a surrogate pair stands for no character of its own. -/
def isSurrogate (c : CodePoint) : Bool := 0xD800 ≤ c && c ≤ 0xDFFF

/-- The digits `0` to `9`. -/
def isDigit (c : CodePoint) : Bool := 48 ≤ c && c ≤ 57

/-- The value of a hexadecimal digit of either case. -/
def hexValue? (c : CodePoint) : Option Nat :=
  if 48 ≤ c && c ≤ 57 then some (c - 48)
  else if 97 ≤ c && c ≤ 102 then some (c - 87)
  else if 65 ≤ c && c ≤ 70 then some (c - 55)
  else none

/-- The small letter of a capital of the basic alphabet; other characters stay. -/
def lowerLetter (c : CodePoint) : CodePoint := if 65 ≤ c && c ≤ 90 then c + 32 else c

/-- A text with the capitals of the basic alphabet made small. -/
def lower (t : Text) : Text := t.map lowerLetter

/-- Whether a text begins with another. -/
def startsWith (t start : Text) : Bool := start.isPrefixOf t

/-- Whether a text ends with another. -/
def endsWith (t finish : Text) : Bool := finish.isSuffixOf t

/-- The parts of a text between the occurrences of a separator. There is always one more part than
there are separators. -/
def split (separator : CodePoint) : Text → List Text
  | [] => [[]]
  | c :: rest =>
    if c = separator then [] :: split separator rest
    else match split separator rest with
      | [] => [[c]]
      | part :: parts => (c :: part) :: parts

/-- Parts put together with a separator between each two. -/
def join (separator : Text) : List Text → Text
  | [] => []
  | [part] => part
  | part :: parts => part ++ separator ++ join separator parts

/-- A text without the characters at its end that satisfy a test. -/
def trimEnd (drop : CodePoint → Bool) (t : Text) : Text := (t.reverse.dropWhile drop).reverse

/-- A text without the characters at both ends that satisfy a test. -/
def trim (drop : CodePoint → Bool) (t : Text) : Text := trimEnd drop (t.dropWhile drop)

/-- A number in decimal digits, without leading zeros. -/
def ofNat (n : Nat) : Text := (Nat.toDigits 10 n).map Char.toNat

/-- An integer in decimal digits behind its sign. -/
def ofInt : Int → Text
  | .ofNat n => ofNat n
  | .negSucc n => 45 :: ofNat (n + 1)

/-- A number in at least `width` digits, filled with zeros. -/
def padded (width n : Nat) : Text :=
  let digits := ofNat n
  List.replicate (width - digits.length) 48 ++ digits

/-- A hexadecimal digit, in small letters. -/
def hexDigit (n : Nat) : CodePoint := if n < 10 then 48 + n else 87 + n

/-- The lowest `width` hexadecimal digits of a number, in small letters. -/
def hex : Nat → Nat → Text
  | 0, _ => []
  | width + 1, n => hex width (n / 16) ++ [hexDigit (n % 16)]

/-- The number that decimal digits write. -/
def toNat (digits : Text) : Nat := digits.foldl (fun n c => 10 * n + (c - 48)) 0

end Text

end SwaggerDoc
