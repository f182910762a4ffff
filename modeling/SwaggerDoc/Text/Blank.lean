import SwaggerDoc.Text.Basic

/-!
The characters that count as blank at the ends of a text.

Two sets are in use. Method names given by hand are trimmed of every blank of the wide set, which
adds the four information separators to the characters with the white-space property. Numbers
written as texts are trimmed of the white-space characters alone.
-/

namespace SwaggerDoc.Text

/-- The characters with the white-space property. -/
def isWhiteSpace (c : CodePoint) : Bool :=
  (9 ≤ c && c ≤ 13) || c == 0x20 || c == 0x85 || c == 0xA0 || c == 0x1680
    || (0x2000 ≤ c && c ≤ 0x200A) || c == 0x2028 || c == 0x2029 || c == 0x202F
    || c == 0x205F || c == 0x3000

/-- White space and the information separators. -/
def isBlank (c : CodePoint) : Bool := isWhiteSpace c || (0x1C ≤ c && c ≤ 0x1F)

end SwaggerDoc.Text
