import Almanac.Count
import Almanac.Date.Week
import Almanac.FieldValues
import Almanac.ZonedTime

namespace Almanac.FieldValues

def checkYear (field : DateField) (year : Int) : Except ParseError Int :=
  if -2147483648 ≤ year ∧ year ≤ 2147483647 then .ok year else .error (.outOfRange field year)

def within (v : FieldValues) (field : DateField) (low high default : Int) : Except ParseError Int :=
  match v.get? field with
  | none => .ok default
  | some value => if low ≤ value ∧ value ≤ high then .ok value else .error (.outOfRange field value)

def agree (v : FieldValues) (field : DateField) (found : Int) : Except ParseError Unit :=
  match v.get? field with
  | none => .ok ()
  | some value => if value = found then .ok () else .error (.conflict field value found)

/-- The year before any look at weeks: the year itself, else the year of the era, else the
week-based year. -/
def writtenYear (v : FieldValues) : Int :=
  match v.get? .year, v.get? .yearOfEra with
  | some year, _ => year
  | none, some yearOfEra => if v.get? .era = some 0 then 1 - yearOfEra else yearOfEra
  | none, none => (v.get? .weekBasedYear).getD 1970

def monthIn (v : FieldValues) : Except ParseError Int :=
  if v.contains .monthOfYear then v.within .monthOfYear 1 12 1
  else do return ((← v.within .quarterOfYear 1 4 1) - 1) * 3 + 1

def dayIn (v : FieldValues) : Except ParseError Int :=
  if v.contains .dayOfMonth then v.within .dayOfMonth 1 31 1
  else if v.contains .alignedWeekOfMonth then do
    let week ← v.within .alignedWeekOfMonth 1 5 1
    let day ← v.within .alignedDayOfWeekInMonth 1 7 1
    return (week - 1) * 7 + day
  else return 1

/-- The date in a calendar year: by the day of the year if there is neither month nor day of the
month, else by month or quarter, and by day of the month or aligned week. -/
def dateIn (v : FieldValues) (year : Int) : Except ParseError Date :=
  if v.contains .dayOfYear ∧ ¬ v.contains .monthOfYear ∧ ¬ v.contains .dayOfMonth then do
    let day ← v.within .dayOfYear 1 366 1
    match Date.ofYearDay? year day with
    | some date => return date
    | none => throw (.unrepresentable (.dayOfYear day year))
  else do
    let month ← v.monthIn
    let day ← v.dayIn
    match Date.ofYmd? year month day with
    | some date => return date
    | none => throw (.unrepresentable (.date year month day))

def dateInWeekYear? (v : FieldValues) (weekYear year : Int) : Option Date :=
  (v.dateIn year).toOption.filter fun date ↦ date.weekYear = weekYear

/-- The date in a week-based year, sought in the calendar year of the same number and in those
before and after. -/
def dateInWeekYear (v : FieldValues) (weekYear : Int) : Except ParseError Date :=
  match [weekYear, weekYear - 1, weekYear + 1].findSome? (v.dateInWeekYear? weekYear) with
  | some date => .ok date
  | none => v.dateIn weekYear

def weekDate (v : FieldValues) (year : Int) : Except ParseError Date := do
  let weekYear ← match v.get? .weekBasedYear with
    | some weekYear => checkYear .weekBasedYear weekYear
    | none => pure year
  let week ← v.within .weekOfWeekBasedYear 1 53 1
  let weekday ← v.within .dayOfWeek 1 7 1
  match Date.ofWeekDate? weekYear week weekday with
  | some date => return date
  | none => throw (.unrepresentable (.week week weekYear))

/-- The date before it is compared with weekday, quarter and day of the year. A week without a day
selects a week date, a week-based year with a day the calendar year that puts the day into it. -/
def chosenDate (v : FieldValues) : Except ParseError Date := do
  let year ← checkYear .year v.writtenYear
  let fixesDay := v.contains .dayOfMonth ∨ v.contains .dayOfYear
  if v.contains .weekOfWeekBasedYear ∧ ¬ fixesDay then v.weekDate year
  else if v.contains .weekBasedYear ∧ ¬ v.contains .year ∧ ¬ v.contains .yearOfEra ∧ fixesDay then
    v.dateInWeekYear year
  else v.dateIn year

def date (v : FieldValues) : Except ParseError Date := do
  let date ← v.chosenDate
  v.agree .dayOfWeek date.weekday
  v.agree .quarterOfYear date.quarter
  v.agree .dayOfYear date.dayOfYear
  return date

def splitDay (field : DateField) (nanos : Int) : Except ParseError (Int × Nat) :=
  if 0 ≤ nanos ∧ nanos < 86400000000000 then .ok (nanos / 1000000000, (nanos % 1000000000).toNat)
  else .error (.outOfRange field nanos)

def hourOfDay (v : FieldValues) : Except ParseError Int :=
  if v.contains .hourOfDay then v.within .hourOfDay 0 23 0
  else if v.contains .clockHourOfDay then do return (← v.within .clockHourOfDay 1 24 0) % 24
  else if v.contains .hourOfAmPm then do
    return (← v.within .hourOfAmPm 0 11 0) + 12 * (← v.within .amPmOfDay 0 1 0)
  else if v.contains .clockHourOfAmPm then do
    return (← v.within .clockHourOfAmPm 1 12 0) % 12 + 12 * (← v.within .amPmOfDay 0 1 0)
  else return 0

def timeOfDay (v : FieldValues) : Except ParseError (Int × Nat) :=
  match v.get? .nanoOfDay, v.get? .milliOfDay with
  | some nanos, _ => splitDay .nanoOfDay nanos
  | none, some millis =>
    if Count.greatest < millis * 1000000 then .error (.outOfRange .milliOfDay millis)
    else splitDay .milliOfDay (millis * 1000000)
  | none, none => do
    let hour ← v.hourOfDay
    if v.contains .hourOfDay ∨ v.contains .clockHourOfDay then v.agree .amPmOfDay (hour / 12)
    let minute ← v.within .minuteOfHour 0 59 0
    let second ← v.within .secondOfMinute 0 59 0
    let nano ← v.within .nanoOfSecond 0 999999999 0
    return (hour * 3600 + minute * 60 + second, nano.toNat)

def reading (v : FieldValues) : Except ParseError Reading := do
  let date ← v.date
  let (second, nano) ← v.timeOfDay
  return .ofDate date second nano

def place (v : FieldValues) (zone : Zone) : Except ParseError ZonedTime := do
  let reading ← v.reading
  match zone.localize? reading with
  | some t => return t
  | none => throw (.unrepresentable (.wall reading zone.name))

end Almanac.FieldValues
