import Almanac.CalendarUnit
import Almanac.Date.Shift
import Almanac.ZonedTime

namespace Almanac.ZonedTime

def advance? (t : ZonedTime) (lapse : Int) : Option ZonedTime :=
  covered? t.zone (t.utc.advance lapse)

/-- The instant of a wall-clock reading in the same zone, with the same offset where that can be
kept. -/
def reattach? (t : ZonedTime) (wall : Reading) : Option ZonedTime :=
  t.zone.attach? wall (some t.offset)

def onDate? (t : ZonedTime) (date : Date) : Option ZonedTime :=
  t.reattach? (.ofDate date t.wall.secondOfDay t.wall.nano)

def plusDays? (t : ZonedTime) (amount : Int) : Option ZonedTime := do
  t.reattach?
    (← (t.wall.advance (amount * (Reading.secondsPerDay * Reading.nanosPerSecond))).covered?)

def plus? (t : ZonedTime) (amount : Int) : CalendarUnit → Option ZonedTime
  | .nanos => t.advance? amount
  | .millis => t.advance? (amount * 1000000)
  | .seconds => t.advance? (amount * Reading.nanosPerSecond)
  | .minutes => t.advance? (amount * (60 * Reading.nanosPerSecond))
  | .hours => t.advance? (amount * (3600 * Reading.nanosPerSecond))
  | .halfDays => t.advance? (amount * (43200 * Reading.nanosPerSecond))
  | .days => t.plusDays? amount
  | .weeks => t.plusDays? (7 * amount)
  | .months => do t.onDate? (← t.wall.date.addMonths? amount)
  | .quarters => do t.onDate? (← t.wall.date.addMonths? (3 * amount))
  | .years => do t.onDate? (← t.wall.date.addMonths? (12 * amount))
  | .weekBasedYears => do t.onDate? (← t.wall.date.addWeekYears? amount)
  | .eras => do t.onDate? (← t.wall.date.addEras? amount)

/-- The local time is asked for every unit, also for those of elapsed time, which have no use for
it. -/
def plusChecked (t : ZonedTime) (amount : Int) (unit : CalendarUnit) :
    Except NoLocalTime (Option ZonedTime) := checked [t] (t.plus? amount unit)

end Almanac.ZonedTime
