import SwaggerDoc.Fault
import SwaggerDoc.Yaml.Style

/-!
Places in a text that is being read.

A place knows its line and its column, because blocks are told apart by their columns and a key has
to stand on one line. The end of the text is shown as the character zero, which no text that is read
contains. All line ends of the basic alphabet have become line feeds before reading starts.
-/

namespace SwaggerDoc.Yaml

/-- Why reading stops. -/
inductive Problem where
  /-- The text is not well formed, or describes no value. -/
  | malformed
  /-- A scalar does not have the form that its tag asks for. -/
  | fault (f : Fault)
  deriving DecidableEq, Repr

/-- A place in a text: what is left, and where that begins. -/
structure Cursor where
  rest : Text
  index : Nat
  line : Nat
  column : Nat
  deriving Repr

namespace Cursor

/-- The beginning of a text. -/
def start (t : Text) : Cursor := ⟨t, 0, 0, 0⟩

/-- The character some places ahead. -/
def peekAt (c : Cursor) (n : Nat) : CodePoint := c.rest.getD n 0

/-- The next character. -/
def peek (c : Cursor) : CodePoint := c.peekAt 0

/-- Whether nothing is left. -/
def atEnd (c : Cursor) : Bool := c.peek == 0

/-- The place behind the next character. A byte order mark takes no column. -/
def next (c : Cursor) : Cursor :=
  match c.rest with
  | [] => c
  | x :: rest =>
    if isBreak x then ⟨rest, c.index + 1, c.line + 1, 0⟩
    else ⟨rest, c.index + 1, c.line, if x = 0xFEFF then c.column else c.column + 1⟩

/-- The place some characters ahead. -/
def advance (c : Cursor) : Nat → Cursor
  | 0 => c
  | n + 1 => c.next.advance n

/-- The characters up to the first that fails a test, and the place of that one. -/
def span (p : CodePoint → Bool) (c : Cursor) : Text × Cursor :=
  let found := c.rest.takeWhile p
  (found, c.advance found.length)

/-- The place of the first character that fails a test. -/
def skip (p : CodePoint → Bool) (c : Cursor) : Cursor := (c.span p).2

/-- The place behind spaces. -/
def skipSpaces (c : Cursor) : Cursor := c.skip (· == 32)

/-- The place behind spaces, but not beyond a column. -/
def skipSpacesTo (column : Nat) (c : Cursor) : Cursor :=
  c.advance ((c.rest.take (column - c.column)).takeWhile (· == 32)).length

/-- Whether a character ends a line or the text. -/
def endsLine (x : CodePoint) : Bool := x == 0 || isBreak x

/-- Whether a character is a space or ends a line or the text. -/
def endsWord (x : CodePoint) : Bool := x == 32 || endsLine x

/-- A line break, as it counts in a text, and the place behind it. -/
def lineBreak? (c : Cursor) : Option (CodePoint × Cursor) :=
  let x := c.peek
  if isBreak x then some (if x = 0x85 then 10 else x, c.next) else none

/-- Whether a line of three equal characters begins here that marks the bounds of a document. -/
def atMark (c : Cursor) (mark : CodePoint) : Bool :=
  c.column == 0 && c.rest.take 3 == [mark, mark, mark] && isSeparator (c.peekAt 3)

/-- Whether a document begins or ends here. -/
def atDocument (c : Cursor) : Bool := c.atMark 45 || c.atMark 46

/-- The place behind a comment, which reaches to the end of the line, if one stands here. -/
def skipComment (c : Cursor) : Cursor := if c.peek = 35 then c.skip (!endsLine ·) else c

/-- The rest of a line on which nothing but a comment may follow. -/
def skipLine (c : Cursor) : Except Problem Cursor :=
  let c := c.skipSpaces.skipComment
  if endsLine c.peek then .ok ((c.lineBreak?.map Prod.snd).getD c) else .error .malformed

end Cursor

/-! ## Line breaks inside scalars -/

/-- Line breaks that have been passed, and where that ended. -/
structure Breaks where
  passed : Text
  cursor : Cursor
  /-- Passing them stopped because a document begins or ends there. -/
  marked : Bool

/-- Passes line breaks with nothing but gaps between them, from the start of a line. The first
argument bounds their number. -/
def Breaks.from (isGap : CodePoint → Bool) : Nat → Cursor → Breaks
  | 0, c => ⟨[], c, true⟩
  | n + 1, c =>
    if c.atDocument then ⟨[], c, true⟩
    else
      let c := c.skip isGap
      match c.lineBreak? with
      | none => ⟨[], c, false⟩
      | some (b, c) =>
        let more := Breaks.from isGap n c
        { more with passed := b :: more.passed }

/-- What a line break and those behind it come to inside a scalar: a single one is a space, and of
several the first does not count. -/
def folded (first : CodePoint) (more : Text) : Text :=
  if first != 10 then first :: more else if more.isEmpty then [32] else more

end SwaggerDoc.Yaml
