namespace Almanac

inductive CalendarUnit
  | nanos | millis | seconds | minutes | hours | halfDays
  | days | weeks | months | quarters | years | weekBasedYears | eras
deriving DecidableEq

namespace CalendarUnit

def all : List CalendarUnit :=
  [nanos, millis, seconds, minutes, hours, halfDays, days, weeks, months, quarters, years,
    weekBasedYears, eras]

def name : CalendarUnit → String
  | nanos => "Nanos"
  | millis => "Millis"
  | seconds => "Seconds"
  | minutes => "Minutes"
  | hours => "Hours"
  | halfDays => "HalfDays"
  | days => "Days"
  | weeks => "Weeks"
  | months => "Months"
  | quarters => "Quarters"
  | years => "Years"
  | weekBasedYears => "WeekBasedYears"
  | eras => "Eras"

/-- The length in nanoseconds of a unit of elapsed time; none for a unit of dates. -/
def nanoseconds? : CalendarUnit → Option Int
  | nanos => some 1
  | millis => some 1000000
  | seconds => some 1000000000
  | minutes => some 60000000000
  | hours => some 3600000000000
  | halfDays => some 43200000000000
  | _ => none

def isTimeBased (u : CalendarUnit) : Bool := u.nanoseconds?.isSome

end CalendarUnit

end Almanac
