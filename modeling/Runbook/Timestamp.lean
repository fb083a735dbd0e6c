/-!
# Points in time

A point in time is a number of seconds since the start of 1970 in UTC and a fraction of a second in
nanoseconds.  Within a leap second the count of seconds stands still and the fraction runs on from
one second to two.

Dates are those of the Gregorian calendar, extended to all years.  A year is counted from March, so
that the leap day comes last; `daysBefore` and `civil` go from dates to days and back.  The years
that can be held are bounded, and the calendar day of every offset still fits.
-/

namespace Runbook

/-- A day of the calendar. -/
structure Date where
  /-- The year, counted so that year zero precedes year one. -/
  year : Int
  /-- The month, from one. -/
  month : Nat
  /-- The day of the month, from one. -/
  day : Nat
  deriving DecidableEq, Repr

namespace Date

/-- The least year. -/
def minYear : Int := -262143

/-- The greatest year. -/
def maxYear : Int := 262142

/-- A year with a leap day. -/
def isLeap (y : Int) : Bool := y % 4 == 0 && (y % 100 != 0 || y % 400 == 0)

/-- The number of days of a month. -/
def monthLength (y : Int) (m : Nat) : Nat :=
  if m = 2 then (if isLeap y then 29 else 28)
  else if m = 4 ∨ m = 6 ∨ m = 9 ∨ m = 11 then 30
  else 31

/-- The date names a day, in a year that can be held. -/
def isValid (d : Date) : Bool :=
  minYear ≤ d.year && d.year ≤ maxYear && 1 ≤ d.month && d.month ≤ 12 && 1 ≤ d.day &&
    d.day ≤ monthLength d.year d.month

/-- Days from the start of 1970 to a date. -/
def toDays (d : Date) : Int :=
  let y : Int := if d.month ≤ 2 then d.year - 1 else d.year
  let m : Int := if d.month ≤ 2 then (d.month : Int) + 9 else (d.month : Int) - 3
  let era := y.fdiv 400
  let yearOfEra := y - era * 400
  let dayOfYear := (153 * m + 2) / 5 + (d.day : Int) - 1
  era * 146097 + yearOfEra * 365 + yearOfEra / 4 - yearOfEra / 100 + dayOfYear - 719468

/-- The date that many days from the start of 1970. -/
def ofDays (n : Int) : Date :=
  let z := n + 719468
  let era := z.fdiv 146097
  let dayOfEra := z - era * 146097
  let yearOfEra :=
    (dayOfEra - dayOfEra / 1460 + dayOfEra / 36524 - dayOfEra / 146096) / 365
  let dayOfYear := dayOfEra - (365 * yearOfEra + yearOfEra / 4 - yearOfEra / 100)
  let m := (5 * dayOfYear + 2) / 153
  let day := dayOfYear - (153 * m + 2) / 5 + 1
  let month := if m < 10 then m + 3 else m - 9
  let year := yearOfEra + era * 400 + (if month ≤ 2 then 1 else 0)
  ⟨year, month.toNat, day.toNat⟩

end Date

/-- A point in time. -/
structure Timestamp where
  /-- Seconds since the start of 1970 in UTC. -/
  seconds : Int
  /-- Nanoseconds past the second, a whole second more within a leap second. -/
  nanos : Nat
  deriving DecidableEq, Repr, Inhabited

namespace Timestamp

/-- Nanoseconds of a second. -/
def perSecond : Nat := 1000000000

/-- Seconds of a day. -/
def perDay : Nat := 86400

/-- The day of a point in time, counted from the start of 1970. -/
def day (t : Timestamp) : Int := t.seconds.fdiv perDay

/-- The second of the day of a point in time. -/
def secondOfDay (t : Timestamp) : Nat := (t.seconds.fmod perDay).toNat

/-- The first and the last second that can be held. -/
def isHeld (seconds : Int) : Bool :=
  Date.toDays ⟨Date.minYear, 1, 1⟩ * perDay ≤ seconds &&
    seconds < (Date.toDays ⟨Date.maxYear, 12, 31⟩ + 1) * perDay

/-- Nanoseconds from `s` to `t`.  A leap second that ends between the two counts, one that is
still running at the later end is part of the fraction. -/
def nanosSince (t s : Timestamp) : Int :=
  let a := t.secondOfDay
  let b := s.secondOfDay
  let leap : Int :=
    if b < a then (if perSecond ≤ s.nanos then 1 else 0)
    else if a < b then (if perSecond ≤ t.nanos then -1 else 0)
    else 0
  ((t.day - s.day) * perDay + ((a : Int) - b) + leap) * perSecond + ((t.nanos : Int) - s.nanos)

end Timestamp
end Runbook
