namespace Almanac

/-- A day, counted from 1970-01-01. -/
structure Date where
  epochDay : Int
deriving DecidableEq

namespace Date

instance : LT Date := ⟨fun a b ↦ a.epochDay < b.epochDay⟩
instance : LE Date := ⟨fun a b ↦ a.epochDay ≤ b.epochDay⟩
instance (a b : Date) : Decidable (a < b) := inferInstanceAs (Decidable (a.epochDay < b.epochDay))
instance (a b : Date) : Decidable (a ≤ b) := inferInstanceAs (Decidable (a.epochDay ≤ b.epochDay))

def IsLeap (year : Int) : Prop := year % 4 = 0 ∧ (year % 100 ≠ 0 ∨ year % 400 = 0)

instance (year : Int) : Decidable (IsLeap year) :=
  inferInstanceAs (Decidable (year % 4 = 0 ∧ (year % 100 ≠ 0 ∨ year % 400 = 0)))

def yearStart (year : Int) : Int :=
  365 * year + (year - 1) / 4 - (year - 1) / 100 + (year - 1) / 400 - 719527

def yearLength (year : Int) : Int := if IsLeap year then 366 else 365

/-- The days of a year that lie before a month; month 13 gives the length of the year. -/
def daysBefore (year month : Int) : Int :=
  (367 * month - 362) / 12 + if month ≤ 2 then 0 else if IsLeap year then -1 else -2

def monthLength (year month : Int) : Int := daysBefore year (month + 1) - daysBefore year month

/-- The year of a day, counted in cycles of 400, 100, 4 and 1 years from January 1 of year 1. The
last century of its cycle and the last year of its four are a day longer than the others. -/
def year (d : Date) : Int :=
  let gone := d.epochDay - yearStart 1
  let centuries := min 3 (gone % 146097 / 36524)
  let inCentury := gone % 146097 - 36524 * centuries
  let years := min 3 (inCentury % 1461 / 365)
  400 * (gone / 146097) + 100 * centuries + 4 * (inCentury / 1461) + years + 1

def dayOfYear (d : Date) : Int := d.epochDay - yearStart d.year + 1

/-- The month, from 1. Days from March on are shifted as if February had 30 days. -/
def month (d : Date) : Int :=
  let gone := d.dayOfYear - 1
  let shift := if gone < daysBefore d.year 3 then 0 else if IsLeap d.year then 1 else 2
  (12 * (gone + shift) + 373) / 367

def day (d : Date) : Int := d.dayOfYear - daysBefore d.year d.month

def quarter (d : Date) : Int := (d.month - 1) / 3 + 1

def minYear : Int := -262143

def maxYear : Int := 262142

def InCalendar (d : Date) : Prop :=
  yearStart minYear ≤ d.epochDay ∧ d.epochDay < yearStart (maxYear + 1)

instance (d : Date) : Decidable d.InCalendar :=
  inferInstanceAs
    (Decidable (yearStart minYear ≤ d.epochDay ∧ d.epochDay < yearStart (maxYear + 1)))

def covered? (d : Date) : Option Date := if d.InCalendar then some d else none

def ofYmd (year month day : Int) : Date := ⟨yearStart year + daysBefore year month + day - 1⟩

def ofYmd? (year month day : Int) : Option Date :=
  if 1 ≤ month ∧ month ≤ 12 ∧ 1 ≤ day ∧ day ≤ monthLength year month then
    (ofYmd year month day).covered?
  else none

def ofYearDay? (year dayOfYear : Int) : Option Date :=
  if 1 ≤ dayOfYear ∧ dayOfYear ≤ yearLength year then
    covered? ⟨yearStart year + dayOfYear - 1⟩
  else none

def era (d : Date) : Int := if 1 ≤ d.year then 1 else 0

/-- The year within its era, from 1; year 0 is year 1 of the era before. -/
def yearOfEra (d : Date) : Int := if 1 ≤ d.year then d.year else 1 - d.year

end Date

end Almanac
