import SwaggerDoc.Store.Shown
import SwaggerDoc.Store.Tree

/-!
Documents written as JSON.

Every part stands on a line of its own, two columns further in than the container around it; an
empty container stays on one line. Characters outside the basic alphabet stand for themselves. A
document that contains itself has no such form, and neither has a value that is no text, number,
truth value, list or mapping.
-/

namespace SwaggerDoc.Render

/-- Numbers in JSON documents, with words for the numbers that have no digits. -/
def jsonNumbers : NumberLayout := ⟨text "NaN", text "Infinity", false⟩

namespace Json

/-- A character between double quotes: the quote, the backslash and control characters are
escaped. -/
def character (c : CodePoint) : Text :=
  if c = 34 then text "\\\""
  else if c = 92 then text "\\\\"
  else if c = 8 then text "\\b"
  else if c = 9 then text "\\t"
  else if c = 10 then text "\\n"
  else if c = 12 then text "\\f"
  else if c = 13 then text "\\r"
  else if c < 32 then text "\\u" ++ Text.hex 4 c
  else [c]

/-- A text between double quotes. -/
def string (t : Text) : Text := 34 :: t.flatMap character ++ [34]

/-- A new line for a part at the given depth. -/
def newline (depth : Nat) : Text := 10 :: List.replicate (2 * depth) 32

/-- Written parts between brackets, each on a line of its own one level further in. -/
def bracketed (left right : CodePoint) (depth : Nat) (parts : List Text) : Text :=
  match parts with
  | [] => [left, right]
  | _ =>
    left :: newline (depth + 1) ++ Text.join (44 :: newline (depth + 1)) parts
      ++ newline depth ++ [right]

/-- A scalar; octets have no form. -/
def scalar : Scalar → Except Fault Text
  | .null => .ok (text "null")
  | .bool b => .ok (text (if b then "true" else "false"))
  | .int i => integerText? i
  | .float f => .ok (jsonNumbers.number f)
  | .octets _ => .error .wrongKind
  | s => .ok (string (s.asText?.getD []))

/-- A key is a text: scalars other than texts are written first. -/
def key : Tree → Except Fault Text
  | .scalar s =>
    match s.asText? with
    | some t => .ok (string t)
    | none => (scalar s).map string
  | _ => .error .wrongKind

mutual

/-- A value at the given depth. -/
def value (depth : Nat) : Tree → Except Fault Text
  | .scalar s => scalar s
  | .list items | .tuple items => do
    return bracketed 91 93 depth (← values (depth + 1) items)
  | .map entries => do
    return bracketed 123 125 depth (← members (depth + 1) entries)
  | .back _ => .error .badValue
  | _ => .error .wrongKind

/-- The items of a list. -/
def values (depth : Nat) : List Tree → Except Fault (List Text)
  | [] => .ok []
  | t :: rest => do
    let first ← value depth t
    return first :: (← values depth rest)

/-- The entries of a mapping. -/
def members (depth : Nat) : List (Tree × Tree) → Except Fault (List Text)
  | [] => .ok []
  | (k, v) :: rest => do
    let name ← key k
    let v ← value depth v
    return (name ++ text ": " ++ v) :: (← members depth rest)

end

end Json

/-- A document as JSON, ended by a line break. -/
def json (t : Tree) : Except Fault Text := do return (← Json.value 0 t) ++ [10]

end SwaggerDoc.Render
