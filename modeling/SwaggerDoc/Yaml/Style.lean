import SwaggerDoc.Yaml.Implicit

/-!
How a scalar is written: plain, between quotes, or as lines of its own.

A scalar is plain if nothing in it could be taken for structure, between single quotes if it holds
no character that needs an escape, and between double quotes otherwise.
-/

namespace SwaggerDoc.Yaml

/-- The characters that end a line. -/
def isBreak (c : CodePoint) : Bool := c == 10 || c == 0x85 || c == 0x2028 || c == 0x2029

/-- The characters that separate tokens. -/
def isSeparator (c : CodePoint) : Bool := c == 0 || c == 32 || c == 9 || c == 13 || isBreak c

/-- The characters that need no escape. -/
def isPlainCharacter (c : CodePoint) : Bool :=
  c == 10 || (0x20 ≤ c && c ≤ 0x7E)
    || (c != 0xFEFF && (c == 0x85 || (0xA0 ≤ c && c ≤ 0xD7FF) || (0xE000 ≤ c && c ≤ 0xFFFD)
      || (0x10000 ≤ c && c < 0x10FFFF)))

/-- The letters that stand for a character behind a backslash. -/
def escapeLetters : List (CodePoint × CodePoint) :=
  [ (0, 48), (7, 97), (8, 98), (9, 116), (10, 110), (11, 118), (12, 102), (13, 114), (27, 101),
    (34, 34), (92, 92), (0x85, 78), (0xA0, 95), (0x2028, 76), (0x2029, 80) ]

/-- What matters of a scalar for the way it is written. -/
structure Features where
  /-- It has more than one line. -/
  multiline : Bool
  /-- It may stand without quotes where blocks are written. -/
  plain : Bool
  /-- It may stand between single quotes. -/
  singleQuoted : Bool
  /-- It may stand as lines of its own. -/
  block : Bool
  deriving DecidableEq, Repr

namespace Features

/-- Whether a character begins with a meaning of its own at the start of a scalar. -/
def leadsStructure (c : CodePoint) (separated : Bool) : Bool :=
  (text "#,[]\x7b\x7d&*!|>'\"%@`").contains c || ((c == 63 || c == 58 || c == 45) && separated)

/-- Whether some character after the first could be taken for structure: a colon with a separator
behind it, or a number sign with a separator in front. -/
def holdsStructure (previous : CodePoint) : Text → Bool
  | [] => false
  | c :: rest =>
    (c == 58 && (match rest with
      | [] => true
      | next :: _ => isSeparator next))
    || (c == 35 && isSeparator previous) || holdsStructure c rest

/-- Whether two characters that satisfy two tests follow each other. -/
def adjacent (first second : CodePoint → Bool) : Text → Bool
  | a :: b :: rest => (first a && second b) || adjacent first second (b :: rest)
  | _ => false

/-- The features of a scalar. -/
def of (t : Text) : Features :=
  match t with
  | [] => ⟨false, true, true, false⟩
  | c :: rest =>
    let last := t.getLast?.getD 0
    let edge (c : CodePoint) : Bool := c == 32 || isBreak c
    let multiline := t.any isBreak
    let special := !t.all isPlainCharacter
    let breakSpace := adjacent isBreak (· == 32) t
    let spaceBreak := adjacent (· == 32) isBreak t
    let separated := match rest with
      | [] => true
      | next :: _ => isSeparator next
    let indicators :=
      Text.startsWith t (text "---") || Text.startsWith t (text "...")
        || leadsStructure c separated || holdsStructure c rest
    let clean := !(spaceBreak || special)
    { multiline
      plain := clean && !breakSpace && !multiline && !edge c && !edge last && !indicators
      singleQuoted := clean && !breakSpace
      block := clean && last != 32 }

end Features

/-- The ways to write a scalar. -/
inductive Style where
  | plain | singleQuoted | doubleQuoted | literal
  deriving DecidableEq, Repr

/-- The way to write a scalar with a tag. `lines` asks for lines of its own; `key` says that it
stands in front of a colon, where it may have one line only. -/
def Style.choose (tag : NodeTag) (t : Text) (lines key : Bool) : Style :=
  let f := Features.of t
  if lines then if !key && f.block then .literal else .doubleQuoted
  else if Implicit.tag t == tag && f.plain && !(key && (t.isEmpty || f.multiline)) then .plain
  else if f.singleQuoted && !(key && f.multiline) then .singleQuoted
  else .doubleQuoted

end SwaggerDoc.Yaml
