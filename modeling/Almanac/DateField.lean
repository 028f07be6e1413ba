import Almanac.CalendarUnit
import Almanac.Date.Week
import Almanac.Reading

namespace Almanac

/-- A field of a date or of a time of day, the finest first. -/
inductive DateField
  | nanoOfDay | nanoOfSecond | milliOfDay | secondOfMinute | minuteOfHour | clockHourOfAmPm
  | hourOfAmPm | clockHourOfDay | hourOfDay | amPmOfDay | dayOfWeek | alignedDayOfWeekInMonth
  | dayOfMonth | dayOfYear
  | weekOfWeekBasedYear | alignedWeekOfMonth | monthOfYear | quarterOfYear | weekBasedYear | year
  | yearOfEra | era
deriving DecidableEq

namespace DateField

def all : List DateField :=
  [nanoOfDay, nanoOfSecond, milliOfDay, secondOfMinute, minuteOfHour, clockHourOfAmPm, hourOfAmPm,
   clockHourOfDay, hourOfDay, amPmOfDay, dayOfWeek, alignedDayOfWeekInMonth, dayOfMonth, dayOfYear,
   weekOfWeekBasedYear, alignedWeekOfMonth, monthOfYear, quarterOfYear, weekBasedYear, year,
   yearOfEra, era]

def name : DateField → String
  | nanoOfDay => "NanoOfDay"
  | nanoOfSecond => "NanoOfSecond"
  | milliOfDay => "MilliOfDay"
  | secondOfMinute => "SecondOfMinute"
  | minuteOfHour => "MinuteOfHour"
  | clockHourOfAmPm => "ClockHourOfAmPm"
  | hourOfAmPm => "HourOfAmPm"
  | clockHourOfDay => "ClockHourOfDay"
  | hourOfDay => "HourOfDay"
  | amPmOfDay => "AmPmOfDay"
  | dayOfWeek => "DayOfWeek"
  | alignedDayOfWeekInMonth => "AlignedDayOfWeekInMonth"
  | dayOfMonth => "DayOfMonth"
  | dayOfYear => "DayOfYear"
  | weekOfWeekBasedYear => "WeekOfWeekBasedYear"
  | alignedWeekOfMonth => "AlignedWeekOfMonth"
  | monthOfYear => "MonthOfYear"
  | quarterOfYear => "QuarterOfYear"
  | weekBasedYear => "WeekBasedYear"
  | year => "Year"
  | yearOfEra => "YearOfEra"
  | era => "Era"

def unit : DateField → CalendarUnit
  | nanoOfDay | nanoOfSecond => .nanos
  | milliOfDay => .millis
  | secondOfMinute => .seconds
  | minuteOfHour => .minutes
  | clockHourOfAmPm | hourOfAmPm | clockHourOfDay | hourOfDay => .hours
  | amPmOfDay => .halfDays
  | dayOfWeek | alignedDayOfWeekInMonth | dayOfMonth | dayOfYear => .days
  | weekOfWeekBasedYear | alignedWeekOfMonth => .weeks
  | monthOfYear => .months
  | quarterOfYear => .quarters
  | weekBasedYear => .weekBasedYears
  | year | yearOfEra => .years
  | era => .eras

/-- The value of the field at a clock reading. A leap second reads as the nanosecond before it. -/
def value (r : Reading) : DateField → Int
  | nanoOfDay => r.secondOfDay * 1000000000 + r.clippedNano
  | nanoOfSecond => r.clippedNano
  | milliOfDay => r.secondOfDay * 1000 + r.clippedNano / 1000000
  | secondOfMinute => r.secondOfMinute
  | minuteOfHour => r.minute
  | clockHourOfAmPm => if r.hour % 12 = 0 then 12 else r.hour % 12
  | hourOfAmPm => r.hour % 12
  | clockHourOfDay => if r.hour = 0 then 24 else r.hour
  | hourOfDay => r.hour
  | amPmOfDay => r.hour / 12
  | dayOfWeek => r.date.weekday
  | alignedDayOfWeekInMonth => (r.date.day - 1) % 7 + 1
  | dayOfMonth => r.date.day
  | dayOfYear => r.date.dayOfYear
  | weekOfWeekBasedYear => r.date.week
  | alignedWeekOfMonth => (r.date.day - 1) / 7 + 1
  | monthOfYear => r.date.month
  | quarterOfYear => r.date.quarter
  | weekBasedYear => r.date.weekYear
  | year => r.date.year
  | yearOfEra => r.date.yearOfEra
  | era => r.date.era

end DateField

end Almanac
