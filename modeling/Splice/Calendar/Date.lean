/-!
# `Splice.Calendar.Date` — dates and instants

The Gregorian calendar without a beginning, and instants counted in seconds from the start of 1970
in universal time. The day count runs over eras of 400 years that begin on the first of March, so
that the leap day is the last of its year.

## Contents
- `Date`, `Date.ofDays`, `Date.toDays`: dates and day numbers, day 0 being the first of January
  1970.
- `Date.IsValid`: the days that months have.
- `Instant`: an instant, with its date and its time of day.
- `ordinalSuffix`: the letters behind the number of a day.
-/

namespace Splice.Calendar

/-- A date. Years before 1 count down to 0 and on to the negative numbers. -/
structure Date where
  year : Int
  month : Nat
  day : Nat
  deriving DecidableEq, Repr

namespace Date

/-- The number of days in an era of 400 years. -/
def daysPerEra : Int := 146097

/-- The day number of the first day of era 0, the first of March of year 0. -/
def eraStart : Int := -719468

/-- The date with a given day number. -/
def ofDays (days : Int) : Date :=
  let shifted := days - eraStart
  let era := shifted / daysPerEra
  let dayOfEra := shifted % daysPerEra
  let yearOfEra := (dayOfEra - dayOfEra / 1460 + dayOfEra / 36524 - dayOfEra / 146096) / 365
  let dayOfYear := dayOfEra - (365 * yearOfEra + yearOfEra / 4 - yearOfEra / 100)
  let month := (5 * dayOfYear + 2) / 153
  let day := dayOfYear - (153 * month + 2) / 5 + 1
  { year := yearOfEra + 400 * era + if month < 10 then 0 else 1
    month := (if month < 10 then month + 3 else month - 9).toNat
    day := day.toNat }

/-- The day number of a date. -/
def toDays (d : Date) : Int :=
  let year := if d.month ≤ 2 then d.year - 1 else d.year
  let month : Int := if d.month ≤ 2 then d.month + 9 else d.month - 3
  let era := year / 400
  let yearOfEra := year % 400
  let dayOfYear := (153 * month + 2) / 5 + d.day - 1
  eraStart + daysPerEra * era + 365 * yearOfEra + yearOfEra / 4 - yearOfEra / 100 + dayOfYear

/-- The year has a leap day. -/
def isLeap (year : Int) : Bool := year % 4 == 0 && (year % 100 != 0 || year % 400 == 0)

/-- The number of days of a month. -/
def daysInMonth (year : Int) (month : Nat) : Nat :=
  if month = 2 then (if isLeap year then 29 else 28)
  else if month = 4 ∨ month = 6 ∨ month = 9 ∨ month = 11 then 30
  else 31

/-- The date is one of the calendar. -/
def IsValid (d : Date) : Prop :=
  1 ≤ d.month ∧ d.month ≤ 12 ∧ 1 ≤ d.day ∧ d.day ≤ daysInMonth d.year d.month

instance (d : Date) : Decidable d.IsValid := by
  unfold IsValid
  infer_instance

end Date

/-- An instant: seconds since the start of 1970 in universal time, leap seconds not counted. -/
structure Instant where
  seconds : Int
  deriving DecidableEq, Repr

namespace Instant

/-- The number of seconds in a day. -/
def secondsPerDay : Int := 86400

/-- The day number of an instant. -/
def days (t : Instant) : Int := t.seconds / secondsPerDay

/-- The seconds since midnight. -/
def secondOfDay (t : Instant) : Nat := (t.seconds % secondsPerDay).toNat

/-- The date of an instant. -/
def date (t : Instant) : Date := Date.ofDays t.days

/-- The hour of an instant. -/
def hour (t : Instant) : Nat := t.secondOfDay / 3600

/-- The minute of an instant. -/
def minute (t : Instant) : Nat := t.secondOfDay / 60 % 60

/-- The second of an instant. -/
def second (t : Instant) : Nat := t.secondOfDay % 60

/-- The day of the week, counted from Sunday as 0. -/
def weekday (t : Instant) : Nat := ((t.days + 4) % 7).toNat

/-- The instant comes at or after noon. -/
def isAfternoon (t : Instant) : Bool := 12 ≤ t.hour

/-- The hour on a dial of twelve hours. -/
def hour12 (t : Instant) : Nat := if t.hour % 12 = 0 then 12 else t.hour % 12

/-- The instant of a date and a time of day. -/
def ofParts (date : Date) (hour minute second : Nat) : Instant :=
  { seconds := secondsPerDay * date.toDays + 3600 * hour + 60 * minute + second }

/-- The first and the last year whose instants can be written. -/
def firstYear : Int := -262143

@[inherit_doc firstYear]
def lastYear : Int := 262142

/-- The instant lies in the years that can be written. -/
def inRange (t : Instant) : Bool := firstYear ≤ t.date.year && t.date.year ≤ lastYear

end Instant

/-- The letters behind the number of a day: 11, 12 and 13 take `th` whatever their last digit. -/
def ordinalSuffix (day : Nat) : String :=
  if 11 ≤ day % 100 ∧ day % 100 ≤ 13 then "th"
  else
    match day % 10 with
    | 1 => "st"
    | 2 => "nd"
    | 3 => "rd"
    | _ => "th"

end Splice.Calendar
