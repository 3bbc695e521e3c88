/-!
# Calendar time

Instants are counted in seconds since the start of 1970 and written in the
Gregorian calendar, which is extended to all years.  Years are counted from
March so that a leap day ends its year.
-/

namespace Workflow

/-- A day of the calendar. -/
structure CalendarDate where
  year : Int
  month : Nat
  day : Nat
  deriving DecidableEq

/-- An instant: whole seconds since the start of 1970, and nanoseconds.  A
thousand million nanoseconds or more belong to a leap second. -/
structure Instant where
  seconds : Int
  nanoseconds : Nat
  deriving DecidableEq

namespace CalendarDate

/-- The number of days from the first of March of the year zero to the start
of 1970. -/
def epochOffset : Int := 719468

/-- The date that is a number of days after the start of 1970.  Four hundred
years have 146097 days, and within them the year, month and day follow by
division. -/
def ofDays (days : Int) : CalendarDate :=
  let shifted := days + epochOffset
  let era := shifted.fdiv 146097
  let dayOfEra := (shifted.fmod 146097).toNat
  let yearOfEra := (dayOfEra - dayOfEra / 1460 + dayOfEra / 36524 - dayOfEra / 146096) / 365
  let dayOfYear := dayOfEra - (365 * yearOfEra + yearOfEra / 4 - yearOfEra / 100)
  let monthFromMarch := (5 * dayOfYear + 2) / 153
  let month := if monthFromMarch < 10 then monthFromMarch + 3 else monthFromMarch - 9
  { year := yearOfEra + era * 400 + (if month ≤ 2 then 1 else 0)
    month
    day := dayOfYear - (153 * monthFromMarch + 2) / 5 + 1 }

end CalendarDate

namespace Instant

/-- The first year that an instant may lie in. -/
def minYear : Int := -262143

/-- The last year that an instant may lie in. -/
def maxYear : Int := 262142

/-- The decimal digits of a number, filled up with zeros to a width. -/
def padded (width value : Nat) : String :=
  let digits := Nat.toDigits 10 value
  String.ofList (List.replicate (width - digits.length) '0' ++ digits)

/-- A year in four digits; outside 0 to 9999 it has a sign. -/
def yearText (year : Int) : String :=
  if year < 0 then "-" ++ padded 4 year.natAbs
  else if 9999 < year then "+" ++ padded 4 year.natAbs
  else padded 4 year.natAbs

/-- Whether there is an instant with these nanoseconds; a leap second ends a
minute. -/
def hasValidNanoseconds (instant : Instant) : Bool :=
  instant.nanoseconds < 1000000000 ||
    (instant.nanoseconds < 2000000000 && instant.seconds.fmod 60 == 59)

/-- The date of an instant. -/
def date (instant : Instant) : CalendarDate :=
  .ofDays (instant.seconds.fdiv 86400)

/-- The text of an instant with six decimals of the second, or nothing when it
lies outside the calendar. -/
def text? (instant : Instant) : Option String :=
  let date := instant.date
  if instant.hasValidNanoseconds && minYear ≤ date.year && date.year ≤ maxYear then
    let inDay := (instant.seconds.fmod 86400).toNat
    let leap := instant.nanoseconds / 1000000000
    let micros := instant.nanoseconds % 1000000000 / 1000
    let year := yearText date.year
    let month := padded 2 date.month
    let day := padded 2 date.day
    let hour := padded 2 (inDay / 3600)
    let minute := padded 2 (inDay / 60 % 60)
    let second := padded 2 (inDay % 60 + leap)
    let fraction := padded 6 micros
    some s!"{year}-{month}-{day}T{hour}:{minute}:{second}.{fraction}+00:00"
  else
    none

end Instant

end Workflow
