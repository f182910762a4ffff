import SwaggerDoc.Number.Literal
import SwaggerDoc.Yaml.Cursor

/-!
The names in front of nodes and documents: anchors, tags and directives.
-/

namespace SwaggerDoc.Yaml

/-- A tag as it is written: the handle stands for the beginning of the tag, unless the tag is
written in full. -/
structure TagName where
  handle : Option Text
  rest : Text
  deriving DecidableEq, Repr

/-- A line in front of a document that is about the document. -/
inductive Directive where
  /-- The version of the format, of which the first number matters. -/
  | version (major : Nat)
  /-- What a tag handle stands for. -/
  | handle (name path : Text)
  | other
  deriving DecidableEq, Repr

namespace Lexeme

/-- The letters and digits of the basic alphabet. -/
def isAlphanumeric (x : CodePoint) : Bool :=
  Text.isDigit x || (65 ≤ x && x ≤ 90) || (97 ≤ x && x ≤ 122)

/-- The characters of names. -/
def isNameCharacter (x : CodePoint) : Bool := isAlphanumeric x || x == 45 || x == 95

/-- The characters of tags, among them the mark of an escape. -/
def isTagCharacter (x : CodePoint) : Bool :=
  isAlphanumeric x || (text "-;/?:@&=+$,_.!~*'()[]%").contains x

/-- The name of an anchor. -/
def anchorName (c : Cursor) : Except Problem (Text × Cursor) :=
  let (name, c) := c.span isNameCharacter
  let ended := isSeparator c.peek || (text "?:,]\x7d%@`").contains c.peek
  if name.isEmpty || !ended then .error .malformed else .ok (name, c)

/-- The octet of two hexadecimal digits. -/
def escapedOctet? (t : Text) : Option (Nat × Text) :=
  match t with
  | a :: b :: rest => do return ((← Text.hexValue? a) * 16 + (← Text.hexValue? b), rest)
  | _ => none

/-- The characters of a tag without its escapes. Octets collect, in reverse, as long as escapes
follow each other; together they have to encode a text. The first argument bounds the length. -/
def unescaped (octets : Octets) : Nat → Text → Except Problem Text
  | 0, _ => .error .malformed
  | n + 1, t =>
    match t with
    | 37 :: rest =>
      match escapedOctet? rest with
      | some (octet, rest) => unescaped (octet :: octets) n rest
      | none => .error .malformed
    | _ => do
      let escaped ← match Octets.decode octets.reverse with
        | .ok escaped => .ok escaped
        | .error _ => .error .malformed
      match t with
      | [] => return escaped
      | x :: rest => return escaped ++ x :: (← unescaped [] n rest)

/-- The characters of a tag behind its handle. -/
def tagRest (c : Cursor) : Except Problem (Text × Cursor) := do
  let (found, c) := c.span isTagCharacter
  if found.isEmpty then throw .malformed
  return (← unescaped [] (found.length + 1) found, c)

/-- A tag handle: a mark, or a name between two marks. -/
def tagHandle (c : Cursor) : Except Problem (Text × Cursor) :=
  if c.peek != 33 then .error .malformed
  else if c.peekAt 1 = 32 then .ok ([33], c.next)
  else
    let (name, d) := c.next.span isNameCharacter
    if d.peek = 33 then .ok (33 :: name ++ [33], d.next) else .error .malformed

/-- A tag in front of a node. -/
def tagName (c : Cursor) : Except Problem (TagName × Cursor) := do
  let (name, c) ←
    if c.peekAt 1 = 60 then do
      let (rest, c) ← tagRest (c.advance 2)
      if c.peek != 62 then throw .malformed
      pure (⟨none, rest⟩, c.next)
    else if isSeparator (c.peekAt 1) then pure (⟨none, [33]⟩, c.next)
    else if (c.next.span (!Cursor.endsWord ·)).1.contains 33 then do
      let (handle, c) ← tagHandle c
      let (rest, c) ← tagRest c
      pure (⟨some handle, rest⟩, c)
    else do
      let (rest, c) ← tagRest c.next
      pure (⟨some [33], rest⟩, c)
  if Cursor.endsWord c.peek then return (name, c) else throw .malformed

/-- A number in a directive. -/
def number (c : Cursor) : Except Problem (Nat × Cursor) :=
  let (digits, c) := c.span Text.isDigit
  if digits.isEmpty then .error .malformed
  else match Literal.integer? 10 digits with
    | some i => .ok (i.toNat, c)
    | none => .error (.fault .badValue)

/-- A directive and the rest of its line. -/
def directive (c : Cursor) : Except Problem (Directive × Cursor) := do
  let (name, c) := c.span isNameCharacter
  if name.isEmpty || !Cursor.endsWord c.peek then throw .malformed
  let (found, c) ←
    if name = text "YAML" then do
      let (major, c) ← number c.skipSpaces
      if c.peek != 46 then throw .malformed
      let (_, c) ← number c.next
      if !Cursor.endsWord c.peek then throw .malformed
      pure (.version major, c)
    else if name = text "TAG" then do
      let (handle, c) ← tagHandle c.skipSpaces
      if c.peek != 32 then throw .malformed
      let (path, c) ← tagRest c.skipSpaces
      if !Cursor.endsWord c.peek then throw .malformed
      pure (.handle handle path, c)
    else pure (.other, c.skip (!Cursor.endsLine ·))
  return (found, ← c.skipLine)

end Lexeme

end SwaggerDoc.Yaml
