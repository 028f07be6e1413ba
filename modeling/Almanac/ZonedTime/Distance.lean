import Almanac.Count
import Almanac.ZonedTime.Plus

namespace Almanac.ZonedTime

/-- The date up to which whole days count: a day is given back while the time of day has not been
reached. -/
def wholeDayEnd (start stop : Reading) : Date :=
  if start.date < stop.date ∧ stop.EarlierInDay start then
    (Date.covered? ⟨stop.date.epochDay - 1⟩).getD stop.date
  else if stop.date < start.date ∧ start.EarlierInDay stop then
    (Date.covered? ⟨stop.date.epochDay + 1⟩).getD stop.date
  else stop.date

def unitsUntil (start stop : ZonedTime) (unit : CalendarUnit) : Int :=
  let lapse := stop.utc.since start.utc
  let startWall := start.wall
  let stopWall := (stop.inZone start.zone).wall
  let stopDate := wholeDayEnd startWall stopWall
  match unit with
  | .nanos => Count.clamp lapse
  | .millis => lapse.tdiv 1000000
  | .seconds => lapse.tdiv Reading.nanosPerSecond
  | .minutes => lapse.tdiv (60 * Reading.nanosPerSecond)
  | .hours => lapse.tdiv (3600 * Reading.nanosPerSecond)
  | .halfDays => lapse.tdiv (43200 * Reading.nanosPerSecond)
  | .days => stopDate.epochDay - startWall.date.epochDay
  | .weeks => (stopDate.epochDay - startWall.date.epochDay).tdiv 7
  | .months => startWall.date.monthsUntil stopDate
  | .quarters => (startWall.date.monthsUntil stopDate).tdiv 3
  | .years => (startWall.date.monthsUntil stopDate).tdiv 12
  | .weekBasedYears => stopWall.date.weekYear - startWall.date.weekYear
  | .eras => stopWall.date.era - startWall.date.era

/-- Units of elapsed time are counted without a look at local times. -/
def askedByCount (start stop : ZonedTime) (unit : CalendarUnit) : List ZonedTime :=
  if unit.isTimeBased then [] else [start, stop.inZone start.zone]

theorem askedByCount_of_isTimeBased {unit : CalendarUnit} (h : unit.isTimeBased)
    (start stop : ZonedTime) : start.askedByCount stop unit = [] := if_pos h

def unitsUntilChecked (start stop : ZonedTime) (unit : CalendarUnit) : Except NoLocalTime Int :=
  checked (start.askedByCount stop unit) (start.unitsUntil stop unit)

end Almanac.ZonedTime
