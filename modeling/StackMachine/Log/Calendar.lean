import StackMachine.Decimal.Basic

/-!
# Calendar dates

Days are counted from the first of January 1970, in the Gregorian calendar.  The count
is split into cycles of 400 years, which all have the same number of days; within a
cycle years start in March, so that a leap day is the last day of its year.
-/

namespace StackMachine

/-- A day of the calendar. -/
structure Date where
  year : Nat
  /-- From 1 to 12. -/
  month : Nat
  /-- From 1. -/
  day : Nat
deriving DecidableEq

namespace Date

/-- The days from the first of March of year 0 to the first of January 1970. -/
def epochShift : Nat := 719468

/-- The days of 400 years. -/
def cycleDays : Nat := 146097

/-- The year of a cycle, counted from March, that contains a day of the cycle. -/
def yearOfCycle (day : Nat) : Nat :=
  (day - day / 1460 + day / 36524 - day / 146096) / 365

/-- The days of a cycle before a year of the cycle. -/
def daysBefore (year : Nat) : Nat := 365 * year + year / 4 - year / 100

/-- The year that contains a day, both counted from the first of March of year 0. -/
def marchYear (days : Nat) : Nat := yearOfCycle (days % cycleDays) + days / cycleDays * 400

/-- The number of a day in its year, both counted from the first of March of year 0. -/
def dayOfMarchYear (days : Nat) : Nat :=
  days % cycleDays - daysBefore (yearOfCycle (days % cycleDays))

/-- The date of a day of a year that starts in March. -/
def ofMarch (year dayOfYear : Nat) : Date :=
  let marchMonth := (5 * dayOfYear + 2) / 153
  let day := dayOfYear - (153 * marchMonth + 2) / 5 + 1
  let month := if marchMonth < 10 then marchMonth + 3 else marchMonth - 9
  ⟨if month ≤ 2 then year + 1 else year, month, day⟩

/-- The number of years a date can tell apart: a year is a word of 32 bits. -/
def yearValues : Nat := 4294967296

/-- The date of a day, counted from the first of January 1970. -/
def ofDays (days : Nat) : Date :=
  let shifted := days + epochShift
  let date := ofMarch (marchYear shifted) (dayOfMarchYear shifted)
  { date with year := date.year % yearValues }

end Date

/-- The text of a time, in milliseconds since the start of 1970. -/
def timestamp (ms : Nat) : String :=
  let seconds := ms / 1000
  let date := Date.ofDays (seconds / 86400)
  let two := Decimal.padded 2
  String.ofList (
    Decimal.padded 4 date.year ++ '-' :: two date.month ++ '-' :: two date.day ++
      ' ' :: two (seconds / 3600 % 24) ++ ':' :: two (seconds / 60 % 60) ++
      ':' :: two (seconds % 60) ++ '.' :: Decimal.padded 3 (ms % 1000))

end StackMachine
