import SwaggerDoc.Text.Basic

/-!
Dates and times of day in the calendar of the years 1 to 9999.

A time may know its distance from universal time. Two times that both know it are the same when they
are the same instant; a time that knows it never equals one that does not.
-/

namespace SwaggerDoc

/-- A day of the calendar. -/
structure Date where
  year : Nat
  month : Nat
  day : Nat
  deriving DecidableEq, Repr

/-- A time on a day, to the microsecond, with the seconds that it is ahead of universal time if that
is known. -/
structure DateTime where
  date : Date
  hour : Nat
  minute : Nat
  second : Nat
  microsecond : Nat
  ahead : Option Int
  deriving DecidableEq, Repr

namespace Date

/-- Every fourth year is a leap year, except the full centuries that 400 does not divide. -/
def isLeap (year : Nat) : Bool := year % 4 == 0 && (year % 100 != 0 || year % 400 == 0)

/-- The number of days of a month. -/
def daysIn (year month : Nat) : Nat :=
  match month with
  | 2 => if isLeap year then 29 else 28
  | 4 | 6 | 9 | 11 => 30
  | _ => 31

/-- Whether the calendar has the day. -/
def valid (d : Date) : Bool :=
  1 ≤ d.year && d.year ≤ 9999 && 1 ≤ d.month && d.month ≤ 12 && 1 ≤ d.day
    && d.day ≤ daysIn d.year d.month

/-- The number of days from the first day of the first year. -/
def ordinal (d : Date) : Nat :=
  let before := d.year - 1
  let months := (List.range (d.month - 1)).map fun m => daysIn d.year (m + 1)
  before * 365 + before / 4 - before / 100 + before / 400 + months.foldl (· + ·) 0 + (d.day - 1)

/-- Year, month and day with hyphens between. -/
def iso (d : Date) : Text :=
  Text.padded 4 d.year ++ 45 :: Text.padded 2 d.month ++ 45 :: Text.padded 2 d.day

/-- The numbers of a date in a list. -/
def numbers (d : Date) : List Nat := [d.year, d.month, d.day]

/-- The date as messages show it. -/
def shown (d : Date) : Text :=
  text "datetime.date(" ++ Text.join (text ", ") (d.numbers.map Text.ofNat) ++ text ")"

end Date

namespace DateTime

/-- Whether the calendar has the day and the clock the time. A distance from universal time stays
below one day. -/
def valid (t : DateTime) : Bool :=
  t.date.valid && t.hour < 24 && t.minute < 60 && t.second < 60 && t.microsecond < 1000000
    && match t.ahead with
      | none => true
      | some s => -86400 < s && s < 86400

/-- The seconds since the first day of the first year, in universal time if the distance from it is
known. -/
def instant (t : DateTime) : Int :=
  (((t.date.ordinal * 24 + t.hour) * 60 + t.minute) * 60 + t.second : Nat) - t.ahead.getD 0

/-- Whether two times are the same. -/
def equal (a b : DateTime) : Bool :=
  a.ahead.isSome == b.ahead.isSome && a.instant == b.instant && a.microsecond == b.microsecond

/-- A distance from universal time: a sign, hours and minutes, and seconds where there are any. -/
def isoAhead (seconds : Int) : Text :=
  let n := seconds.natAbs
  (if seconds < 0 then 45 else 43) :: Text.padded 2 (n / 3600) ++ 58 :: Text.padded 2 (n / 60 % 60)
    ++ if n % 60 = 0 then [] else 58 :: Text.padded 2 (n % 60)

/-- The date, a separator, and the time; a fraction of a second has six digits or is left out. -/
def iso (separator : CodePoint) (t : DateTime) : Text :=
  t.date.iso ++ separator :: Text.padded 2 t.hour ++ 58 :: Text.padded 2 t.minute
    ++ 58 :: Text.padded 2 t.second
    ++ (if t.microsecond = 0 then [] else 46 :: Text.padded 6 t.microsecond)
    ++ (t.ahead.map isoAhead).getD []

/-- A distance from universal time as messages show it: whole days counted downward, then
seconds. -/
def shownAhead (seconds : Int) : Text :=
  if seconds = 0 then text "datetime.timezone.utc"
  else
    let days := seconds.fdiv 86400
    let rest := seconds.fmod 86400
    let parts :=
      (if days = 0 then [] else [text "days=" ++ Text.ofInt days])
        ++ (if rest = 0 then [] else [text "seconds=" ++ Text.ofInt rest])
    text "datetime.timezone(datetime.timedelta(" ++ Text.join (text ", ") parts ++ text "))"

/-- The time as messages show it. The seconds and the fraction are left out from the end while they
are zero. -/
def shown (t : DateTime) : Text :=
  let fine :=
    if t.microsecond != 0 then [t.second, t.microsecond]
    else if t.second != 0 then [t.second] else []
  let parts := (t.date.numbers ++ [t.hour, t.minute] ++ fine).map Text.ofNat
  let zone := (t.ahead.map fun s => [text "tzinfo=" ++ shownAhead s]).getD []
  text "datetime.datetime(" ++ Text.join (text ", ") (parts ++ zone) ++ text ")"

end DateTime

end SwaggerDoc
