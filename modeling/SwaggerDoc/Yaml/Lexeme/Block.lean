import SwaggerDoc.Yaml.Cursor

/-!
Scalars that are written as lines of their own.

The lines keep what they are indented by beyond the first one, or beyond the column that is
announced. Either all line breaks are kept, or single ones between lines that begin with no blank
become spaces. What becomes of the line breaks at the end is announced too.
-/

namespace SwaggerDoc.Yaml.Lexeme

/-- What becomes of the line breaks at the end: all are dropped, one stays, or all stay. -/
inductive Ending where
  | dropped | one | kept
  deriving DecidableEq, Repr

/-- What is announced about the lines. -/
structure BlockHeader where
  ending : Ending
  /-- By how much the lines are indented, if that is said. -/
  indentation : Option Nat

/-- How the line breaks at the end are announced. -/
def ending? (x : CodePoint) : Option Ending :=
  if x = 43 then some .kept else if x = 45 then some .dropped else none

/-- How the indentation is announced. -/
def indentation? (x : CodePoint) : Option Nat := if Text.isDigit x then some (x - 48) else none

/-- An announcement, if it stands here. -/
def announced {α : Type} (read : CodePoint → Option α) (c : Cursor) : Option α × Cursor :=
  match read c.peek with
  | some a => (some a, c.next)
  | none => (none, c)

/-- The announcements in front of the lines, in either order, and the rest of their line. -/
def blockHeader (c : Cursor) : Except Problem (BlockHeader × Cursor) := do
  let (before, c) := announced ending? c
  let (indentation, c) := announced indentation? c
  let (behind, c) := if before.isSome then (none, c) else announced ending? c
  if indentation = some 0 || !Cursor.endsWord c.peek then throw .malformed
  return (⟨(before.or behind).getD .one, indentation⟩, ← c.skipLine)

/-- Line breaks with nothing but spaces up to a column between them. The first argument bounds their
number. -/
def blockBreaks (column : Nat) : Nat → Cursor → Text × Cursor
  | 0, c => ([], c)
  | n + 1, c =>
    let c := c.skipSpacesTo column
    match c.lineBreak? with
    | none => ([], c)
    | some (b, c) =>
      let (more, c) := blockBreaks column n c
      (b :: more, c)

/-- Line breaks with nothing but spaces between them, and the greatest column that the spaces reach.
The first argument bounds their number. -/
def leadingBreaks : Nat → Cursor → Text × Nat × Cursor
  | 0, c => ([], 0, c)
  | n + 1, c =>
    let c := c.skipSpaces
    match c.lineBreak? with
    | none => ([], c.column, c)
    | some (b, d) =>
      let (more, column, d) := leadingBreaks n d
      (b :: more, max c.column column, d)

/-- Lines that have been read: their text, the line break behind the last of them, and the further
ones behind that. -/
structure BlockLines where
  found : Text
  last : Text
  further : Text
  cursor : Cursor

/-- Spaces and tabs. -/
def isBlankCharacter (x : CodePoint) : Bool := x == 32 || x == 9

/-- Lines that begin in a column, behind line breaks. The first argument bounds their number. -/
def blockLines (folds : Bool) (column : Nat) : Nat → (last passed : Text) → Cursor → BlockLines
  | 0, last, passed, c => ⟨[], last, passed, c⟩
  | n + 1, last, passed, c =>
    if c.column != column || c.atEnd then ⟨[], last, passed, c⟩
    else
      let (line, d) := c.span (!Cursor.endsLine ·)
      let (last, d) := match d.lineBreak? with
        | some (b, d) => ([b], d)
        | none => ([], d)
      let (further, d) := blockBreaks column (d.rest.length + 1) d
      let joint : Text :=
        if d.column != column || d.atEnd then []
        else if folds && last == [10] && !isBlankCharacter c.peek && !isBlankCharacter d.peek then
          if further.isEmpty then [32] else []
        else last
      let more := blockLines folds column n last further d
      { more with found := passed ++ line ++ joint ++ more.found }

/-- A scalar in lines of its own, behind its indicator. `margin` is the first column inside the
block around it. -/
def block (folds : Bool) (margin : Nat) (c : Cursor) : Except Problem (Text × Cursor) := do
  let (header, c) ← blockHeader c
  let least := max 1 margin
  let (passed, column, c) := match header.indentation with
    | some n =>
      let column := least + n - 1
      let (passed, c) := blockBreaks column (c.rest.length + 1) c
      (passed, column, c)
    | none =>
      let (passed, reached, c) := leadingBreaks (c.rest.length + 1) c
      (passed, max least reached, c)
  let lines := blockLines folds column (c.rest.length + 1) [] passed c
  let ends := match header.ending with
    | .dropped => []
    | .one => lines.last
    | .kept => lines.last ++ lines.further
  return (lines.found ++ ends, lines.cursor)

end SwaggerDoc.Yaml.Lexeme
