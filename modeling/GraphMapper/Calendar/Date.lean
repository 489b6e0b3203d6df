/-
Dates of the proleptic Gregorian calendar, years 1 to 9999, with their day
numbers. Day 1 is 0001-01-01, a Monday, so a day number also gives the day of
the week.
-/
namespace GraphMapper

namespace Calendar

def isLeap (year : Nat) : Bool :=
  year % 4 == 0 && (year % 100 != 0 || year % 400 == 0)

def daysInMonth (year month : Nat) : Nat :=
  if month = 2 then (if isLeap year then 29 else 28)
  else if month = 4 || month = 6 || month = 9 || month = 11 then 30
  else 31

def daysInYear (year : Nat) : Nat := if isLeap year then 366 else 365

/-- The days of all years before `year`. -/
def daysBeforeYear (year : Nat) : Nat :=
  let y := year - 1
  y * 365 + y / 4 - y / 100 + y / 400

/-- The days of the months before `month` in its year. -/
def daysBeforeMonth (year : Nat) : Nat → Nat
  | 0 | 1 => 0
  | month + 1 => daysBeforeMonth year month + daysInMonth year month

/-- The dates there are. -/
def ValidDate (year month day : Nat) : Prop :=
  1 ≤ year ∧ year ≤ 9999 ∧ 1 ≤ month ∧ month ≤ 12 ∧ 1 ≤ day ∧
    day ≤ daysInMonth year month

instance (year month day : Nat) : Decidable (ValidDate year month day) :=
  inferInstanceAs (Decidable (_ ∧ _ ∧ _ ∧ _ ∧ _ ∧ _))

end Calendar

structure Date where
  year : Nat
  month : Nat
  day : Nat
  valid : Calendar.ValidDate year month day
  deriving DecidableEq

namespace Date

/-- The date with these parts, if the calendar has it. -/
def ofParts? (year month day : Nat) : Option Date :=
  if h : Calendar.ValidDate year month day then
    some ⟨year, month, day, h⟩
  else none

/-- The day number. -/
def ordinal (d : Date) : Nat :=
  Calendar.daysBeforeYear d.year + Calendar.daysBeforeMonth d.year d.month
    + d.day

/-- Month and day of the `n`-th day (from 0) of a year, looked for from `month`
on. -/
def monthAndDay (year : Nat) : Nat → Nat → Nat → Nat × Nat
  | 0, month, n => (month, n + 1)
  | fuel + 1, month, n =>
    let days := Calendar.daysInMonth year month
    if n < days then (month, n + 1)
    else monthAndDay year fuel (month + 1) (n - days)

/-- The year that the day `n` (from 0) is in, and its number (from 0) in that
year. Four centuries have the same days each; within them centuries, groups of
four years and years are counted off, and the last day of a leap year is the
one day that the count would put into a fifth unit. -/
def yearAndDay (n : Nat) : Nat × Nat :=
  let fourCenturies := n / 146097
  let n := n % 146097
  let centuries := min 3 (n / 36524)
  let n := n - centuries * 36524
  let fours := n / 1461
  let n := n % 1461
  let years := min 3 (n / 365)
  (fourCenturies * 400 + centuries * 100 + fours * 4 + years + 1,
    n - years * 365)

/-- The date of a day number; there is none outside the years 1 to 9999. -/
def ofOrdinal? (n : Int) : Option Date :=
  if n < 1 then none
  else
    let (year, day) := yearAndDay (n.toNat - 1)
    let (month, dayOfMonth) := monthAndDay year 11 1 day
    ofParts? year month dayOfMonth

/-- The day of the week of a day number, Monday being 0. -/
def weekday (n : Nat) : Nat := (n + 6) % 7

/-- The day number of the Monday of week 1: the week that has the year's first
Thursday. It may lie in the year before. -/
def firstMonday (year : Nat) : Int :=
  let first := Calendar.daysBeforeYear year + 1
  let monday : Int := (first : Int) - weekday first
  if weekday first > 3 then monday + 7 else monday

/-- A year has a week 53 when it starts on a Thursday, or on a Wednesday and is
a leap year. -/
def hasWeek53 (year : Nat) : Bool :=
  let start := weekday (Calendar.daysBeforeYear year + 1)
  start == 3 || (start == 2 && Calendar.isLeap year)

/-- The date of a week and a day of the week, Monday being 1. -/
def ofWeek? (year week day : Nat) : Option Date :=
  if 1 ≤ year && 1 ≤ week && (week ≤ 52 || (week == 53 && hasWeek53 year)) &&
      1 ≤ day && day ≤ 7 then
    ofOrdinal? (firstMonday year + ((week - 1) * 7 + (day - 1) : Nat))
  else none

end Date

end GraphMapper
