import SwaggerDoc.Yaml.Cursor

/-!
Scalars without quotes.

A plain scalar goes on as long as nothing in it is structure: a colon with a separator behind it, a
comment, or, between brackets, a character that belongs to them. Its lines are folded, and each has
to be indented by more than the block around it.
-/

namespace SwaggerDoc.Yaml.Lexeme

/-- Whether a plain scalar can begin here. `flow` says that it stands between brackets. -/
def startsPlain (flow : Bool) (c : Cursor) : Bool :=
  let x := c.peek
  !(isSeparator x || (text "-?:,[]\x7b\x7d#&*!|>'\"%@`").contains x)
    || (!isSeparator (c.peekAt 1) && (x == 45 || (!flow && (x == 63 || x == 58))))

/-- Whether a character cannot follow a colon in a plain scalar. -/
def endsAtColon (flow : Bool) (next : CodePoint) : Bool :=
  isSeparator next || (flow && (text ",[]\x7b\x7d").contains next)

/-- The characters of a plain scalar up to a blank or structure. -/
def plainWord (flow : Bool) : Text → Text
  | [] => []
  | x :: rest =>
    if isSeparator x || (x == 58 && endsAtColon flow (rest.headD 0))
        || (flow && (text ",?[]\x7b\x7d").contains x) then []
    else x :: plainWord flow rest

/-- A plain scalar: its text, where it ends, and whether a line break has been passed behind it. -/
structure Plain where
  found : Text
  cursor : Cursor
  brokeLine : Bool

/-- What separates two words of a plain scalar; nothing if the scalar ends in front of it. -/
def plainGap (c : Cursor) : Plain :=
  let (spaces, c) := c.span (· == 32)
  match c.lineBreak? with
  | none => ⟨spaces, c, false⟩
  | some (first, d) =>
    let breaks := Breaks.from (· == 32) (d.rest.length + 1) d
    ⟨if breaks.marked then [] else folded first breaks.passed, breaks.cursor, true⟩

/-- A plain scalar from a word onward; `gap` stands in front of the word. The first argument bounds
the length. -/
def plainFrom (flow : Bool) (margin : Nat) : Nat → (gap : Plain) → Plain
  | 0, gap => { gap with found := [] }
  | n + 1, gap =>
    let c := gap.cursor
    let word := if c.peek = 35 then [] else plainWord flow c.rest
    if word.isEmpty then { gap with found := [] }
    else
      let next := plainGap (c.advance word.length)
      let more :=
        if next.found.isEmpty || (!flow && next.cursor.column < margin) then
          { next with found := [] }
        else plainFrom flow margin n next
      { more with found := gap.found ++ word ++ more.found }

/-- A plain scalar. `margin` is the first column inside the block around it. -/
def plain (flow : Bool) (margin : Nat) (c : Cursor) : Plain :=
  plainFrom flow margin (c.rest.length + 1) ⟨[], c, false⟩

end SwaggerDoc.Yaml.Lexeme
