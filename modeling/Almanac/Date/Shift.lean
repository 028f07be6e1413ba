import Almanac.Date.Week

namespace Almanac.Date

def monthIndex (d : Date) : Int := 12 * d.year + (d.month - 1)

def inMonth? (d : Date) (index : Int) : Option Date :=
  ofYmd? (index / 12) (index % 12 + 1) (min d.day (monthLength (index / 12) (index % 12 + 1)))

def addMonths? (d : Date) (amount : Int) : Option Date := d.inMonth? (d.monthIndex + amount)

/-- The same week and weekday in another week-based year, where week 53 becomes 52 if that year is
shorter. -/
def addWeekYears? (d : Date) (amount : Int) : Option Date := do
  let last ← ofYmd? (d.weekYear + amount) 12 28
  ofWeekDate? (d.weekYear + amount) (min d.week last.week) d.weekday

/-- The same year of era, month and day in the era reached; February 29 falls back to the day
before. -/
def addEras? (d : Date) (amount : Int) : Option Date :=
  let era := d.era + amount
  if era = 0 ∨ era = 1 then
    let year := if era = 1 then d.yearOfEra else 1 - d.yearOfEra
    (ofYmd? year d.month d.day).or (ofYmd? year d.month (d.day - 1))
  else none

/-- The whole months from one date to another, toward zero. Thirty-two places for each month keep
the days apart. -/
def monthsUntil (start stop : Date) : Int :=
  ((stop.monthIndex * 32 + stop.day) - (start.monthIndex * 32 + start.day)).tdiv 32

end Almanac.Date
