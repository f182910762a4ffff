import SwaggerDoc.Text.Blank
import SwaggerDoc.Text.Digit
import SwaggerDoc.Number.Binary64

/-!
Numbers written as texts.

Two grammars are in use. A bound given as a text is read by the narrow one: basic digits, single
underscores among them, white space around. A scalar that a tag declares to be a number is read
by the wide one: digits of every script, white space around, and a base where the tag's form names
one.
-/

namespace SwaggerDoc.Literal

/-- A sign in front, and what follows it. -/
def signed (t : Text) : Bool × Text :=
  match t with
  | 43 :: rest => (false, rest)
  | 45 :: rest => (true, rest)
  | _ => (false, t)

/-- The most digits that an integer written in decimal may have. -/
def longest : Nat := 4300

/-- A text without its underscores, where it has some and each stands alone between two other
characters. -/
def ungrouped? (t : Text) : Option Text :=
  let parts := Text.split 95 t
  if parts.length = 1 || parts.any List.isEmpty then none else some parts.flatten

/-- An integer in its plain form: digits without a leading zero, behind a minus sign at most. -/
def plainInt? (t : Text) : Option Int :=
  let (negative, digits) := match t with
    | 45 :: rest => (true, rest)
    | _ => (false, t)
  if digits.isEmpty || !digits.all Text.isDigit || digits.length > longest then none
  else if digits.head? = some 48 && digits.length > 1 then none
  else
    let n : Int := Text.toNat digits
    some (if negative then -n else n)

/-- What is left of a text that follows zeros, the last of them (or of the underscores among them)
being `last`. It goes on with a digit or a minus sign; the last zero is kept where nothing or a
point follows. -/
def afterZeros? (last : CodePoint) : Text → Option Text
  | [] => some [last]
  | c :: rest =>
    if c = 48 || c = 95 then afterZeros? c rest
    else if Text.isDigit c || c = 45 then some (c :: rest)
    else if c = 46 then some (last :: c :: rest)
    else none

/-- A text without its leading zeros. It begins with a digit or a minus sign. -/
def withoutLeadingZeros? : Text → Option Text
  | [] => none
  | c :: rest =>
    if c = 48 then afterZeros? c rest
    else if Text.isDigit c || c = 45 then some (c :: rest)
    else none

/-- A text without a fraction that holds zeros only. -/
def withoutZeroFraction (t : Text) : Text :=
  match t.dropWhile (· != 46) with
  | _ :: zeros =>
    if !zeros.isEmpty && zeros.all (· == 48) then t.takeWhile (· != 46) else t
  | [] => t

/-- A text in which all that an integer may have beyond its plain form is taken away: white space
around, a plus sign, leading zeros, a fraction of zeros, single underscores. -/
def reduced? (t : Text) : Option Text := do
  let t := Text.trim Text.isWhiteSpace t
  let (negative, body) := signed t
  if t.head? = some 43 && body.head? = some 45 then none
  else
    let body := withoutZeroFraction (← withoutLeadingZeros? body)
    let body := (ungrouped? body).getD body
    some (if negative then 45 :: body else body)

/-- A bound as an integer, in its plain form or in one that reduces to it. -/
def wholeBound? (t : Text) : Option Int := (plainInt? t).or ((reduced? t).bind plainInt?)

/-- The exponent behind a mantissa: nothing, or a marker with signed digits. -/
def exponent? : Text → Option Int
  | [] => some 0
  | c :: rest =>
    if c = 101 || c = 69 then
      let (negative, digits) := signed rest
      if !digits.isEmpty && digits.all Text.isDigit then
        some (if negative then -(Text.toNat digits : Int) else Text.toNat digits)
      else none
    else none

/-- Digits with a point among them and an exponent behind them; there is at least one digit. -/
def decimal? (negative : Bool) (t : Text) : Option Binary64 :=
  let whole := t.takeWhile Text.isDigit
  let afterWhole := t.dropWhile Text.isDigit
  let (fraction, rest) := match afterWhole with
    | 46 :: more => (more.takeWhile Text.isDigit, more.dropWhile Text.isDigit)
    | _ => ([], afterWhole)
  if whole.isEmpty && fraction.isEmpty then none
  else do
    let exponent ← exponent? rest
    some (Binary64.ofDecimal negative (Text.toNat (whole ++ fraction)) (exponent - fraction.length))

/-- A number with a point: a sign, then the name of an infinity or of the not-a-number, or
digits. -/
def real? (t : Text) : Option Binary64 :=
  let (negative, body) := signed t
  let name := Text.lower body
  if name = text "inf" || name = text "infinity" then some (.infinite negative)
  else if name = text "nan" then some (.nan 0)
  else decimal? negative body

/-- A bound as a number with a point: white space around it, or single underscores between any two
of its characters. -/
def bound? (t : Text) : Option Binary64 :=
  (real? (Text.trim Text.isWhiteSpace t)).or ((ungrouped? t).bind real?)

/-! ## Scalars with a declared type -/

/-- A text with the digits of every script replaced by the basic ones. -/
def basicDigits (t : Text) : Text :=
  t.map fun c => if c < 128 then c else match Text.digitValue? c with
    | some value => 48 + value
    | none => c

/-- The value of a digit in a base of at most 36. -/
def digitIn? (base : Nat) (c : CodePoint) : Option Nat :=
  let value? :=
    if Text.isDigit c then some (c - 48)
    else if 97 ≤ c && c ≤ 122 then some (c - 87)
    else if 65 ≤ c && c ≤ 90 then some (c - 55)
    else none
  value?.filter (· < base)

/-- The letter that may follow a zero in front of digits of a base. -/
def baseLetter (base : Nat) (c : CodePoint) : Bool :=
  match base with
  | 2 => c == 98 || c == 66
  | 8 => c == 111 || c == 79
  | 16 => c == 120 || c == 88
  | _ => false

/-- An integer in a base: white space around, a sign, the base's own mark, and at least one digit.
Only decimal digits are limited in number. -/
def integer? (base : Nat) (t : Text) : Option Int :=
  let (negative, body) := signed (Text.trim Text.isWhiteSpace (basicDigits t))
  let digits := match body with
    | 48 :: c :: rest => if baseLetter base c then rest else body
    | _ => body
  if digits.isEmpty || (base == 10 && digits.length > longest) then none
  else do
    let values ← digits.mapM (digitIn? base)
    let n : Int := (values.foldl (fun n d => base * n + d) 0 : Nat)
    some (if negative then -n else n)

/-- A number with a point, white space around it. -/
def float? (t : Text) : Option Binary64 := real? (Text.trim Text.isWhiteSpace (basicDigits t))

end SwaggerDoc.Literal
