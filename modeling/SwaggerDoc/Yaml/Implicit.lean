import SwaggerDoc.Text.Basic

/-!
The types that plain scalars have without a tag.

A plain scalar is taken for a truth value, a number, a timestamp, nothing, a merge key or a default
key when it is written like one, and for a text otherwise. Reading decides by these forms, and
writing keeps texts out of their way.
-/

namespace SwaggerDoc.Yaml

/-- The tag of a node. The tags of the shared vocabulary have their own names. -/
inductive NodeTag where
  | null | bool | int | float | timestamp | merge | default | string | binary
  | sequence | mapping | set | orderedMap | pairs
  /-- Any other tag, in full. -/
  | other (t : Text)
  deriving DecidableEq, Repr

namespace NodeTag

/-- The tags of the shared vocabulary with their names in it. -/
def vocabulary : List (NodeTag × Text) :=
  [ (.null, text "null"), (.bool, text "bool"), (.int, text "int"), (.float, text "float"),
    (.timestamp, text "timestamp"), (.merge, text "merge"), (.default, text "value"),
    (.string, text "str"), (.binary, text "binary"), (.sequence, text "seq"),
    (.mapping, text "map"), (.set, text "set"), (.orderedMap, text "omap"),
    (.pairs, text "pairs") ]

/-- Tags of the shared vocabulary begin so when they are written in full. -/
def vocabularyPath : Text := text "tag:yaml.org,2002:"

/-- The tag that is written in full as a text. -/
def ofFull (t : Text) : NodeTag :=
  ((vocabulary.find? fun entry => vocabularyPath ++ entry.2 == t).map Prod.fst).getD (.other t)

/-- The short form of a tag of the vocabulary. -/
def short (tag : NodeTag) : Text :=
  text "!!" ++ ((vocabulary.find? fun entry => entry.1 == tag).map Prod.snd).getD []

end NodeTag

namespace Implicit

/-- A sign in front is left aside. -/
def unsigned (t : Text) : Text :=
  match t with
  | c :: rest => if c = 43 || c = 45 then rest else t
  | [] => []

/-- A digit or an underscore. -/
def isDigitOrGap (c : CodePoint) : Bool := Text.isDigit c || c == 95

/-- Digits and underscores after a first digit. -/
def isNumeral (t : Text) : Bool :=
  match t with
  | c :: rest => Text.isDigit c && rest.all isDigitOrGap
  | [] => false

/-- A number below sixty in one or two digits. -/
def isSixtieth (t : Text) : Bool :=
  match t with
  | [c] => Text.isDigit c
  | [c, d] => 48 ≤ c && c ≤ 53 && Text.isDigit d
  | _ => false

/-- Sixtieths, at least one, each behind a colon. -/
def areSixtieths (parts : List Text) : Bool := !parts.isEmpty && parts.all isSixtieth

/-- The words for truth values. -/
def isBool (t : Text) : Bool :=
  ["yes", "Yes", "YES", "no", "No", "NO", "true", "True", "TRUE", "false", "False", "FALSE",
    "on", "On", "ON", "off", "Off", "OFF"].any (text · == t)

/-- Whole numbers: binary, octal, decimal, hexadecimal, or in sixtieths. -/
def isInt (t : Text) : Bool :=
  match unsigned t with
  | [48] => true
  | 48 :: 98 :: rest => !rest.isEmpty && rest.all fun c => c == 48 || c == 49 || c == 95
  | 48 :: 120 :: rest =>
    !rest.isEmpty && rest.all fun c => (Text.hexValue? c).isSome || c == 95
  | 48 :: rest => rest.all fun c => (48 ≤ c && c ≤ 55) || c == 95
  | body =>
    match Text.split 58 body with
    | [whole] => isNumeral whole
    | whole :: parts => isNumeral whole && areSixtieths parts
    | [] => false

/-- Nothing, or an exponent with its sign. -/
def isExponent (t : Text) : Bool :=
  match t with
  | [] => true
  | e :: sign :: digits =>
    (e == 101 || e == 69) && (sign == 43 || sign == 45) && !digits.isEmpty
      && digits.all Text.isDigit
  | _ => false

/-- Numbers with a point: decimal, in sixtieths, infinite, or no number. -/
def isFloat (t : Text) : Bool :=
  let body := unsigned t
  let special :=
    [".inf", ".Inf", ".INF"].any (text · == body) || [".nan", ".NaN", ".NAN"].any (text · == t)
  let whole := body.takeWhile (· != 46)
  match body.drop whole.length with
  | [] => false
  | _ :: rest =>
    let tail := rest.dropWhile isDigitOrGap
    let decimal :=
      if whole.isEmpty then t == body && isNumeral (rest.takeWhile isDigitOrGap) && isExponent tail
      else isNumeral whole && isExponent tail
    let sixtieths := match Text.split 58 whole with
      | first :: parts => isNumeral first && areSixtieths parts && tail.isEmpty
      | [] => false
    special || decimal || sixtieths

/-- Digits, at least `least` and at most `most`, and what follows them. -/
def digits? (least most : Nat) (t : Text) : Option (Text × Text) :=
  let found := (t.take most).takeWhile Text.isDigit
  if found.length < least then none else some (found, t.drop found.length)

/-- A character that has to come next, and what follows it. -/
def expect? (c : CodePoint) (t : Text) : Option Text :=
  match t with
  | d :: rest => if c = d then some rest else none
  | [] => none

/-- The parts of a timestamp as they are written. -/
structure Stamp where
  year : Text
  month : Text
  day : Text
  /-- Hour, minute and second. -/
  clock : Option (Text × Text × Text)
  fraction : Text
  /-- The sign, the hours and the minutes of the distance from universal time; no sign stands for
  the letter that says there is none. -/
  zone : Option (Option CodePoint × Text × Text)
  deriving Repr

/-- Spaces and tabs. -/
def isGap (c : CodePoint) : Bool := c == 32 || c == 9

/-- The distance from universal time at the end of a timestamp. -/
def zone? (t : Text) : Option (Option (Option CodePoint × Text × Text)) :=
  match t.dropWhile isGap with
  | [] => if t.isEmpty then some none else none
  | [90] => some (some (none, [], []))
  | sign :: rest =>
    if sign = 43 || sign = 45 then do
      let (hours, rest) ← digits? 1 2 rest
      match rest with
      | [] => some (some (some sign, hours, []))
      | _ => do
        let (minutes, rest) ← digits? 2 2 (← expect? 58 rest)
        if rest.isEmpty then some (some (some sign, hours, minutes)) else none
    else none

/-- The parts of a timestamp: a day in up to two digits for month and day, and a time behind it if
there is one. -/
def stamp? (t : Text) : Option Stamp := do
  let (year, rest) ← digits? 4 4 t
  let (month, rest) ← digits? 1 2 (← expect? 45 rest)
  let (day, rest) ← digits? 1 2 (← expect? 45 rest)
  if rest.isEmpty then return ⟨year, month, day, none, [], none⟩
  let clock ← match rest with
    | c :: more =>
      if c = 84 || c = 116 then some more
      else if isGap c then some (more.dropWhile isGap)
      else none
    | [] => none
  let (hour, rest) ← digits? 1 2 clock
  let (minute, rest) ← digits? 2 2 (← expect? 58 rest)
  let (second, rest) ← digits? 2 2 (← expect? 58 rest)
  let (fraction, rest) := match rest with
    | 46 :: more => (more.takeWhile Text.isDigit, more.dropWhile Text.isDigit)
    | _ => ([], rest)
  let zone ← zone? rest
  return ⟨year, month, day, some (hour, minute, second), fraction, zone⟩

/-- Timestamps; a day alone has two digits for month and day. -/
def isTimestamp (t : Text) : Bool :=
  match stamp? t with
  | none => false
  | some s => s.clock.isSome || (s.month.length == 2 && s.day.length == 2)

/-- The ways to write nothing. -/
def isNull (t : Text) : Bool := ["", "~", "null", "Null", "NULL"].any (text · == t)

/-- The tag of a plain scalar. -/
def tag (t : Text) : NodeTag :=
  if isNull t then .null
  else if isBool t then .bool
  else if isFloat t then .float
  else if isInt t then .int
  else if t == text "<<" then .merge
  else if isTimestamp t then .timestamp
  else if t == text "=" then .default
  else .string

end Implicit

end SwaggerDoc.Yaml
