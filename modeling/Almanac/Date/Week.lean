import Almanac.Date

namespace Almanac.Date

/-- The day of the week, Monday 1 to Sunday 7. -/
def weekday (d : Date) : Int := (d.epochDay + 3) % 7 + 1

def weekStart (d : Date) : Date := ⟨d.epochDay - (d.weekday - 1)⟩

/-- The Thursday of the week, which decides its year. -/
def thursday (d : Date) : Date := ⟨d.weekStart.epochDay + 3⟩

def weekYear (d : Date) : Int := d.thursday.year

def week (d : Date) : Int := (d.thursday.dayOfYear - 1) / 7 + 1

def weekYearStart (weekYear : Int) : Date := (ofYmd weekYear 1 4).weekStart

/-- December 28 always lies in the last week of its year. -/
def weeksIn (weekYear : Int) : Int := (ofYmd weekYear 12 28).week

def ofWeekDate? (weekYear week weekday : Int) : Option Date :=
  if 1 ≤ week ∧ week ≤ weeksIn weekYear then
    covered? ⟨(weekYearStart weekYear).epochDay + 7 * (week - 1) + (weekday - 1)⟩
  else none

theorem weekday_bounds (d : Date) : 1 ≤ d.weekday ∧ d.weekday ≤ 7 := by
  unfold weekday
  omega

@[simp] theorem weekday_weekStart (d : Date) : d.weekStart.weekday = 1 := by
  simp only [weekStart, weekday]
  omega

end Almanac.Date
