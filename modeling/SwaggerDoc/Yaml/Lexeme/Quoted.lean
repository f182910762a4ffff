import SwaggerDoc.Yaml.Cursor

/-!
Scalars between quotes.

Between single quotes a quote is written twice and nothing else is special. Between double quotes a
backslash escapes: it stands in front of a letter for a character, of a character's number, or of a
line break that does not count. Other line breaks are folded in both.
-/

namespace SwaggerDoc.Yaml.Lexeme

/-- Whether a character stands for itself between any quotes. -/
def isOrdinary (x : CodePoint) : Bool := !(isSeparator x || (text "'\"\\").contains x)

/-- Spaces and tabs. -/
def isBlankBetween (x : CodePoint) : Bool := x == 32 || x == 9

/-- The character that a letter behind a backslash stands for. -/
def escaped? (letter : CodePoint) : Option CodePoint :=
  if letter = 9 || letter = 32 || letter = 47 then some letter
  else (escapeLetters.find? fun entry => entry.2 == letter).map Prod.fst

/-- The number of hexadecimal digits behind a letter that announces the number of a character. -/
def escapedDigits? (letter : CodePoint) : Option Nat :=
  if letter = 120 then some 2
  else if letter = 117 then some 4
  else if letter = 85 then some 8
  else none

/-- The character with a number. -/
def numbered (n : Nat) : Except Problem CodePoint :=
  if n < 0x110000 then .ok n
  else if n < 0x80000000 then .error (.fault .badValue)
  else .error (.fault .tooLarge)

/-- What a backslash and the characters behind it stand for. -/
def escapeSequence (c : Cursor) : Except Problem (Text × Cursor) :=
  let letter := c.peekAt 1
  match escaped? letter, escapedDigits? letter with
  | some x, _ => .ok ([x], c.advance 2)
  | none, some count =>
    let digits := (c.rest.drop 2).take count
    match digits.mapM Text.hexValue? with
    | some values =>
      if values.length < count then .error .malformed
      else do
        return ([← numbered (values.foldl (fun n d => n * 16 + d) 0)], c.advance (2 + count))
    | none => .error .malformed
  | none, none =>
    match c.next.lineBreak? with
    | some (_, d) =>
      let breaks := Breaks.from isBlankBetween (d.rest.length + 1) d
      if breaks.marked then .error .malformed else .ok (breaks.passed, breaks.cursor)
    | none => .error .malformed

/-- Blanks inside a scalar: as they are, or folded if the line ends behind them. -/
def blanksBetween (c : Cursor) : Except Problem (Text × Cursor) :=
  let (blanks, c) := c.span isBlankBetween
  if c.atEnd then .error .malformed
  else match c.lineBreak? with
    | none => .ok (blanks, c)
    | some (first, d) =>
      let breaks := Breaks.from isBlankBetween (d.rest.length + 1) d
      if breaks.marked then .error .malformed else .ok (folded first breaks.passed, breaks.cursor)

/-- A scalar between quotes, from behind the first quote. The second argument bounds its length. -/
def quotedFrom (quote : CodePoint) : Nat → Cursor → Except Problem (Text × Cursor)
  | 0, _ => .error .malformed
  | n + 1, c => do
    let (found, c) := c.span isOrdinary
    let x := c.peek
    if x = quote && !(quote == 39 && c.peekAt 1 == 39) then return (found, c.next)
    let (part, c) ←
      if x = 39 && quote = 39 then .ok ([39], c.advance 2)
      else if x = 92 && quote = 34 then escapeSequence c
      else if isSeparator x then blanksBetween c
      else .ok ([x], c.next)
    let (more, c) ← quotedFrom quote n c
    return (found ++ part ++ more, c)

/-- A scalar between quotes of a kind. -/
def quoted (quote : CodePoint) (c : Cursor) : Except Problem (Text × Cursor) :=
  quotedFrom quote (c.rest.length + 1) c.next

end SwaggerDoc.Yaml.Lexeme
