/-!
# Dates and timestamps

Days of the Gregorian calendar and times of day, with an optional distance from universal time. Only
days and times that exist are built: `Date.ofParts?` and `Timestamp.ofParts?` refuse all others.
-/

set_option autoImplicit false

namespace ApiTree

/-- A decimal number with leading zeros up to the given width. -/
def zeroPadded (width n : Nat) : String :=
  let digits := Nat.toDigits 10 n
  String.ofList (List.replicate (width - digits.length) '0' ++ digits)

/-- A day of the Gregorian calendar. -/
structure Date where
  year : Nat
  month : Nat
  day : Nat
  deriving DecidableEq, Repr, Inhabited

namespace Date

/-- The year has a leap day. -/
def isLeap (year : Nat) : Bool :=
  year % 4 == 0 && (year % 100 != 0 || year % 400 == 0)

/-- Number of days of a month. -/
def monthLength (year month : Nat) : Nat :=
  if month = 2 then (if isLeap year then 29 else 28)
  else if month = 4 || month = 6 || month = 9 || month = 11 then 30
  else 31

/-- The day with the given parts, if the calendar has it. Years run from 1 to 9999. -/
def ofParts? (year month day : Nat) : Option Date :=
  if 1 ≤ year ∧ year ≤ 9999 ∧ 1 ≤ month ∧ month ≤ 12 ∧ 1 ≤ day ∧ day ≤ monthLength year month then
    some ⟨year, month, day⟩
  else none

/-- Number of the day, the first day of the year 1 being 1. -/
def ordinal (d : Date) : Nat :=
  let y := d.year - 1
  365 * y + y / 4 - y / 100 + y / 400 +
    (List.range (d.month - 1)).foldl (fun days m => days + monthLength d.year (m + 1)) 0 + d.day

/-- The day in the form `2021-01-31`. -/
def render (d : Date) : String :=
  zeroPadded 4 d.year ++ "-" ++ zeroPadded 2 d.month ++ "-" ++ zeroPadded 2 d.day

/-- The day as a call that builds it. -/
def literal (d : Date) : String :=
  "datetime.date(" ++ toString d.year ++ ", " ++ toString d.month ++ ", " ++ toString d.day ++ ")"

end Date

/-- A time on a day; `offset` is its distance from universal time in minutes. -/
structure Timestamp where
  date : Date
  hour : Nat
  minute : Nat
  second : Nat
  microsecond : Nat
  offset : Option Int
  deriving DecidableEq, Repr, Inhabited

namespace Timestamp

/-- The time with the given parts, if the clock has it. The offset is less than a day. -/
def ofParts? (date : Date) (hour minute second microsecond : Nat) (offset : Option Int) :
    Option Timestamp :=
  if hour < 24 ∧ minute < 60 ∧ second < 60 ∧ microsecond < 1000000 ∧
      offset.all fun o => o.natAbs < 1440 then
    some ⟨date, hour, minute, second, microsecond, offset⟩
  else none

/-- Microseconds since the start of the day before the year 1, read on the local clock. -/
def localInstant (t : Timestamp) : Int :=
  ((((t.date.ordinal * 24 + t.hour) * 60 + t.minute) * 60 + t.second) * 1000000 + t.microsecond : Nat)

/-- Two timestamps denote the same time: by their distance from universal time when both have one,
and by the clock when neither has. -/
def eqv (s t : Timestamp) : Bool :=
  match s.offset, t.offset with
  | none, none => s.localInstant == t.localInstant
  | some a, some b => s.localInstant - a * 60000000 == t.localInstant - b * 60000000
  | _, _ => false

/-- The distance from universal time in the form `+01:30`. -/
def renderOffset (o : Int) : String :=
  (if o < 0 then "-" else "+") ++ zeroPadded 2 (o.natAbs / 60) ++ ":" ++
    zeroPadded 2 (o.natAbs % 60)

/-- The timestamp with the given text between day and time; a fraction is shown when there is one. -/
def render (separator : String) (t : Timestamp) : String :=
  t.date.render ++ separator ++ zeroPadded 2 t.hour ++ ":" ++ zeroPadded 2 t.minute ++ ":" ++
    zeroPadded 2 t.second ++
    (if t.microsecond = 0 then "" else "." ++ zeroPadded 6 t.microsecond) ++
    (t.offset.map renderOffset).getD ""

/-- The distance from universal time as a call that builds it; a negative one is a day less. -/
def offsetLiteral (o : Int) : String :=
  if o = 0 then "datetime.timezone.utc"
  else if o < 0 then
    "datetime.timezone(datetime.timedelta(days=-1, seconds=" ++ toString (86400 + o * 60) ++ "))"
  else "datetime.timezone(datetime.timedelta(seconds=" ++ toString (o * 60) ++ "))"

/-- The timestamp as a call that builds it, without zero seconds and microseconds at the end. -/
def literal (t : Timestamp) : String :=
  let parts := [t.date.year, t.date.month, t.date.day, t.hour, t.minute] ++
    (if t.microsecond ≠ 0 then [t.second, t.microsecond]
     else if t.second ≠ 0 then [t.second] else [])
  "datetime.datetime(" ++ String.intercalate ", " (parts.map toString) ++
    (match t.offset with
     | some o => ", tzinfo=" ++ offsetLiteral o
     | none => "") ++ ")"

end Timestamp
end ApiTree
