import Almanac.ZonedTime.Plus

namespace Almanac.ZonedTime

def midnight? (t : ZonedTime) (date : Date) : Option ZonedTime := t.reattach? (.ofDate date 0 0)

def floorInDay? (t : ZonedTime) (seconds : Int) : Option ZonedTime :=
  t.reattach? (.ofDate t.wall.date (t.wall.secondOfDay / seconds * seconds) 0)

/-- The first instant of the unit's period. Weeks start on Monday, week-based years with their first
week, the era from year 1 on with that year, and the era before it is floored to year 0. -/
def floor? (t : ZonedTime) : CalendarUnit → Option ZonedTime
  | .nanos => some t
  | .millis => t.reattach? ⟨t.wall.second, t.wall.nano / 1000000 * 1000000⟩
  | .seconds => t.floorInDay? 1
  | .minutes => t.floorInDay? 60
  | .hours => t.floorInDay? 3600
  | .halfDays => t.floorInDay? 43200
  | .days => t.midnight? t.wall.date
  | .weeks => do t.midnight? (← t.wall.date.weekStart.covered?)
  | .months => do t.midnight? (← Date.ofYmd? t.wall.date.year t.wall.date.month 1)
  | .quarters => do
    t.midnight? (← Date.ofYmd? t.wall.date.year (3 * (t.wall.date.quarter - 1) + 1) 1)
  | .years => do t.midnight? (← Date.ofYmd? t.wall.date.year 1 1)
  | .weekBasedYears => do t.midnight? (← Date.ofWeekDate? t.wall.date.weekYear 1 1)
  | .eras => do t.midnight? (← Date.ofYmd? (if 1 ≤ t.wall.date.year then 1 else 0) 1 1)

def floorChecked (t : ZonedTime) (unit : CalendarUnit) : Except NoLocalTime (Option ZonedTime) :=
  checked [t] (t.floor? unit)

end Almanac.ZonedTime
