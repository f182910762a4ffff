import SwaggerDoc.Text.Printable
import SwaggerDoc.Text.Octets

/-!
Texts and octets between quotes, as messages show them.

A text stands between single quotes unless it holds one and no double quote. Inside, the quote and
the backslash are escaped, printable characters stand for themselves, and every other character is
escaped by a letter or by its number.
-/

namespace SwaggerDoc.Text

/-- The quote that needs the fewest escapes; single when both would do. -/
def quoteFor (t : Text) : CodePoint := if t.contains 39 && !t.contains 34 then 34 else 39

/-- The escapes that a text and octets share: the quote, the backslash, the tab and the line
breaks. -/
def commonEscape? (quote c : CodePoint) : Option Text :=
  if c = quote || c = 92 then some [92, c]
  else if c = 9 then some (text "\\t")
  else if c = 10 then some (text "\\n")
  else if c = 13 then some (text "\\r")
  else none

/-- A character inside quotes. -/
def quotedCharacter (quote c : CodePoint) : Text :=
  match commonEscape? quote c with
  | some escape => escape
  | none =>
    if isPrintable c then [c]
    else if c < 0x100 then text "\\x" ++ hex 2 c
    else if c < 0x10000 then text "\\u" ++ hex 4 c
    else text "\\U" ++ hex 8 c

/-- A text between quotes. -/
def quoted (t : Text) : Text :=
  let quote := quoteFor t
  quote :: t.flatMap (quotedCharacter quote) ++ [quote]

/-- An octet inside quotes: only the visible characters of the basic alphabet stand for
themselves. -/
def quotedOctet (quote o : Nat) : Text :=
  match commonEscape? quote o with
  | some escape => escape
  | none => if 32 ≤ o && o ≤ 126 then [o] else text "\\x" ++ hex 2 o

/-- Octets between quotes, marked by a letter in front. -/
def quotedOctets (octets : Octets) : Text :=
  let quote := quoteFor octets
  98 :: quote :: octets.flatMap (quotedOctet quote) ++ [quote]

end SwaggerDoc.Text
