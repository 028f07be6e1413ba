import Almanac.DateField

namespace Almanac

/-- A pattern letter with a meaning, the finest field first. -/
inductive Letter
  | nanoOfDay | nanoOfSecond | milliOfDay | fractionOfSecond | secondOfMinute | minuteOfHour
  | clockHourOfAmPm | hourOfAmPm | clockHourOfDay | hourOfDay | amPmOfDay | localizedDayOfWeek
  | standaloneDayOfWeek | dayOfWeek | alignedDayOfWeekInMonth | dayOfMonth | dayOfYear
  | weekOfWeekBasedYear | alignedWeekOfMonth | standaloneMonth | monthOfYear | standaloneQuarter
  | quarterOfYear | weekBasedYear | year | yearOfEra | era
deriving DecidableEq

namespace Letter

def all : List Letter :=
  [nanoOfDay, nanoOfSecond, milliOfDay, fractionOfSecond, secondOfMinute, minuteOfHour,
    clockHourOfAmPm, hourOfAmPm, clockHourOfDay, hourOfDay, amPmOfDay, localizedDayOfWeek,
    standaloneDayOfWeek, dayOfWeek, alignedDayOfWeekInMonth, dayOfMonth, dayOfYear,
    weekOfWeekBasedYear, alignedWeekOfMonth, standaloneMonth, monthOfYear, standaloneQuarter,
    quarterOfYear, weekBasedYear, year, yearOfEra, era]

def rank (l : Letter) : Nat := l.ctorIdx

def name : Letter → String
  | nanoOfDay => "NanoOfDay"
  | nanoOfSecond => "NanoOfSecond"
  | milliOfDay => "MilliOfDay"
  | fractionOfSecond => "FractionOfSecond"
  | secondOfMinute => "SecondOfMinute"
  | minuteOfHour => "MinuteOfHour"
  | clockHourOfAmPm => "ClockHourOfAmPm"
  | hourOfAmPm => "HourOfAmPm"
  | clockHourOfDay => "ClockHourOfDay"
  | hourOfDay => "HourOfDay"
  | amPmOfDay => "AmPmOfDay"
  | localizedDayOfWeek => "LocalizedDayOfWeek"
  | standaloneDayOfWeek => "StandaloneDayOfWeek"
  | dayOfWeek => "DayOfWeek"
  | alignedDayOfWeekInMonth => "AlignedDayOfWeekInMonth"
  | dayOfMonth => "DayOfMonth"
  | dayOfYear => "DayOfYear"
  | weekOfWeekBasedYear => "WeekOfWeekBasedYear"
  | alignedWeekOfMonth => "AlignedWeekOfMonth"
  | standaloneMonth => "StandaloneMonth"
  | monthOfYear => "MonthOfYear"
  | standaloneQuarter => "StandaloneQuarter"
  | quarterOfYear => "QuarterOfYear"
  | weekBasedYear => "WeekBasedYear"
  | year => "Year"
  | yearOfEra => "YearOfEra"
  | era => "Era"

def toChar : Letter → Char
  | nanoOfDay => 'N'
  | nanoOfSecond => 'n'
  | milliOfDay => 'A'
  | fractionOfSecond => 'S'
  | secondOfMinute => 's'
  | minuteOfHour => 'm'
  | clockHourOfAmPm => 'h'
  | hourOfAmPm => 'K'
  | clockHourOfDay => 'k'
  | hourOfDay => 'H'
  | amPmOfDay => 'a'
  | localizedDayOfWeek => 'e'
  | standaloneDayOfWeek => 'c'
  | dayOfWeek => 'E'
  | alignedDayOfWeekInMonth => 'F'
  | dayOfMonth => 'd'
  | dayOfYear => 'D'
  | weekOfWeekBasedYear => 'w'
  | alignedWeekOfMonth => 'W'
  | standaloneMonth => 'L'
  | monthOfYear => 'M'
  | standaloneQuarter => 'q'
  | quarterOfYear => 'Q'
  | weekBasedYear => 'Y'
  | year => 'u'
  | yearOfEra => 'y'
  | era => 'G'

def ofChar? : Char → Option Letter
  | 'N' => some nanoOfDay
  | 'n' => some nanoOfSecond
  | 'A' => some milliOfDay
  | 'S' => some fractionOfSecond
  | 's' => some secondOfMinute
  | 'm' => some minuteOfHour
  | 'h' => some clockHourOfAmPm
  | 'K' => some hourOfAmPm
  | 'k' => some clockHourOfDay
  | 'H' => some hourOfDay
  | 'a' => some amPmOfDay
  | 'e' => some localizedDayOfWeek
  | 'c' => some standaloneDayOfWeek
  | 'E' => some dayOfWeek
  | 'F' => some alignedDayOfWeekInMonth
  | 'd' => some dayOfMonth
  | 'D' => some dayOfYear
  | 'w' => some weekOfWeekBasedYear
  | 'W' => some alignedWeekOfMonth
  | 'L' => some standaloneMonth
  | 'M' => some monthOfYear
  | 'q' => some standaloneQuarter
  | 'Q' => some quarterOfYear
  | 'Y' => some weekBasedYear
  | 'u' => some year
  | 'y' => some yearOfEra
  | 'G' => some era
  | _ => none

def field : Letter → DateField
  | nanoOfDay => .nanoOfDay
  | nanoOfSecond | fractionOfSecond => .nanoOfSecond
  | milliOfDay => .milliOfDay
  | secondOfMinute => .secondOfMinute
  | minuteOfHour => .minuteOfHour
  | clockHourOfAmPm => .clockHourOfAmPm
  | hourOfAmPm => .hourOfAmPm
  | clockHourOfDay => .clockHourOfDay
  | hourOfDay => .hourOfDay
  | amPmOfDay => .amPmOfDay
  | localizedDayOfWeek | standaloneDayOfWeek | dayOfWeek => .dayOfWeek
  | alignedDayOfWeekInMonth => .alignedDayOfWeekInMonth
  | dayOfMonth => .dayOfMonth
  | dayOfYear => .dayOfYear
  | weekOfWeekBasedYear => .weekOfWeekBasedYear
  | alignedWeekOfMonth => .alignedWeekOfMonth
  | standaloneMonth | monthOfYear => .monthOfYear
  | standaloneQuarter | quarterOfYear => .quarterOfYear
  | weekBasedYear => .weekBasedYear
  | year => .year
  | yearOfEra => .yearOfEra
  | era => .era

def unit (l : Letter) : CalendarUnit := l.field.unit

/-- The groups of letters that place a letter: any member of any group does. -/
def placers : Letter → List (List Letter)
  | nanoOfDay | milliOfDay | clockHourOfDay | hourOfDay | amPmOfDay =>
    [[dayOfYear, dayOfMonth, alignedDayOfWeekInMonth, dayOfWeek, standaloneDayOfWeek,
      localizedDayOfWeek]]
  | nanoOfSecond | fractionOfSecond => [[secondOfMinute]]
  | secondOfMinute => [[minuteOfHour]]
  | minuteOfHour => [[hourOfDay, clockHourOfDay, hourOfAmPm, clockHourOfAmPm]]
  | clockHourOfAmPm | hourOfAmPm => [[amPmOfDay]]
  | localizedDayOfWeek | standaloneDayOfWeek | dayOfWeek | alignedDayOfWeekInMonth =>
    [[alignedWeekOfMonth, weekOfWeekBasedYear]]
  | dayOfMonth | alignedWeekOfMonth => [[monthOfYear, standaloneMonth]]
  | dayOfYear | weekOfWeekBasedYear | standaloneMonth | monthOfYear | standaloneQuarter
  | quarterOfYear =>
    [[yearOfEra, year, weekBasedYear]]
  | weekBasedYear | year | yearOfEra | era => []

theorem rank_lt_of_mem_placers {l coarser : Letter} {group : List Letter}
    (hg : group ∈ l.placers) (hc : coarser ∈ group) : l.rank < coarser.rank := by
  cases l <;> simp only [placers, List.mem_cons, List.not_mem_nil, or_false] at hg <;> subst hg <;>
    simp only [List.mem_cons, List.not_mem_nil, or_false] at hc <;>
    rcases hc with rfl | rfl | rfl | rfl | rfl | rfl <;> decide

end Letter

end Almanac
