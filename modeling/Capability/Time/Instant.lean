/-!
# Instants

An instant is a number of seconds since the start of 1970 in UTC, with nanoseconds. The nanoseconds go beyond one
second only in a leap second, which follows second 59. Dates are those of the Gregorian calendar, in years before its
introduction as well.
-/

namespace Capability

/-- A point in time. -/
structure Instant where
  /-- Whole seconds since the start of 1970, leap seconds not counted. -/
  seconds : Int
  /-- Nanoseconds, from `10 ^ 9` on in a leap second. -/
  nanos : Nat
  deriving DecidableEq, Repr

/-- A day of the calendar. -/
structure Date where
  year : Int
  month : Nat
  day : Nat
  deriving DecidableEq, Repr

namespace Date

/-- Whether a year has a 29th of February. -/
def isLeap (year : Int) : Bool :=
  year % 4 == 0 && (year % 100 != 0 || year % 400 == 0)

/-- How many days a month has. -/
def daysIn (year : Int) (month : Nat) : Nat :=
  if month = 2 then if isLeap year then 29 else 28
  else if month = 4 ∨ month = 6 ∨ month = 9 ∨ month = 11 then 30
  else 31

/-- Whether the calendar has this day. -/
def isValid (d : Date) : Bool :=
  1 ≤ d.month && d.month ≤ 12 && 1 ≤ d.day && d.day ≤ daysIn d.year d.month

/-- The days from the start of 1970. Years are taken to start in March, so that a leap day is the last of its year, and
they are counted in periods of 400. -/
def toDays (d : Date) : Int :=
  let year := if d.month ≤ 2 then d.year - 1 else d.year
  let month : Int := if d.month ≤ 2 then d.month + 9 else d.month - 3
  let ofPeriod := year % 400
  let ofYear := (153 * month + 2) / 5 + d.day - 1
  year / 400 * 146097 + ofPeriod * 365 + ofPeriod / 4 - ofPeriod / 100 + ofYear - 719468

/-- The day that lies a number of days after the start of 1970. -/
def ofDays (days : Int) : Date :=
  let shifted := days + 719468
  let inPeriod := shifted % 146097
  let ofPeriod := (inPeriod - inPeriod / 1460 + inPeriod / 36524 - inPeriod / 146096) / 365
  let inYear := inPeriod - (365 * ofPeriod + ofPeriod / 4 - ofPeriod / 100)
  let month := (5 * inYear + 2) / 153
  let day := inYear - (153 * month + 2) / 5 + 1
  let year := shifted / 146097 * 400 + ofPeriod
  if month < 10 then ⟨year, (month + 3).toNat, day.toNat⟩ else ⟨year + 1, (month - 9).toNat, day.toNat⟩

end Date

namespace Instant

/-- The day of the instant. -/
def date (t : Instant) : Date :=
  Date.ofDays (t.seconds / 86400)

/-- The second of the day of the instant. -/
def secondOfDay (t : Instant) : Nat :=
  (t.seconds % 86400).toNat

/-- The instant a number of milliseconds after the start of 1970. -/
def ofMillis (ms : Int) : Instant :=
  ⟨ms / 1000, (ms % 1000).toNat * 1000000⟩

end Instant

end Capability
