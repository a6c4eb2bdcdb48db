import PullFlow.Clock.TimeOfDay

/-!
Dates of the Gregorian calendar and the weeks they fall into, counted from a number of nanoseconds
since the start of 1970.
-/

namespace PullFlow.Clock

/-- A moment: nanoseconds since the start of 1970. -/
structure Moment where
  nanos : Nat

/-- A date. Months and days count from one, weekdays from Sunday as zero. -/
structure Date where
  year : Nat
  month : Nat
  day : Nat
  dayOfYear : Nat
  weekday : Nat

def isLeap (year : Nat) : Bool := year % 4 == 0 && (year % 100 != 0 || year % 400 == 0)

/-- The date of a day counted from the start of March of the year zero, whose years end with
February. -/
def Date.ofEra (days : Nat) : Date :=
  let era := days / 146097
  let inEra := days % 146097
  let yearOfEra := (inEra - inEra / 1460 + inEra / 36524 - inEra / 146096) / 365
  let inYear := inEra - (365 * yearOfEra + yearOfEra / 4 - yearOfEra / 100)
  let shifted := (5 * inYear + 2) / 153
  let day := inYear - (153 * shifted + 2) / 5 + 1
  let month := if shifted < 10 then shifted + 3 else shifted - 9
  let year := yearOfEra + era * 400 + (if month ≤ 2 then 1 else 0)
  let before := if month ≤ 2 then inYear - 306 else inYear + 59 + (if isLeap year then 1 else 0)
  ⟨year, month, day, before + 1, (days + 3) % 7⟩

namespace Moment

def seconds (t : Moment) : Nat := t.nanos / 1000000000

def subsecond (t : Moment) : Nat := t.nanos % 1000000000

def date (t : Moment) : Date := .ofEra (t.seconds / 86400 + 719468)

def timeOfDay (t : Moment) : TimeOfDay := ⟨t.seconds % 86400, t.subsecond⟩

end Moment

namespace Date

/-- The weekday counted from Monday as zero. -/
def fromMonday (d : Date) : Nat := (d.weekday + 6) % 7

/-- Weeks of the year that start on Sunday. -/
def weekFromSunday (d : Date) : Nat := (d.dayOfYear + 6 - d.weekday) / 7

/-- Weeks of the year that start on Monday. -/
def weekFromMonday (d : Date) : Nat := (d.dayOfYear + 6 - d.fromMonday) / 7

/-- The weeks of a year, counted so that the first one has a Thursday in the year. -/
def weeksIn (year : Nat) : Nat :=
  let ending (y : Nat) : Nat := (y + y / 4 - y / 100 + y / 400) % 7
  if ending year = 4 ∨ ending (year - 1) = 3 then 53 else 52

/-- The year and the week with the first week that has a Thursday in the year. -/
def isoWeek (d : Date) : Nat × Nat :=
  let week := (d.dayOfYear + 9 - (d.fromMonday + 1)) / 7
  if week = 0 then (d.year - 1, weeksIn (d.year - 1))
  else if weeksIn d.year < week then (d.year + 1, 1)
  else (d.year, week)

end Date
end PullFlow.Clock
