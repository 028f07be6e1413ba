import Almanac.DateField
import Almanac.Proofs.Date.Week
import Almanac.ZonedTime
import Mathlib.Algebra.Group.Nat.Defs

namespace Almanac

namespace Date

theorem monthLength_bounds {year month : Int} (h₁ : 1 ≤ month) (h₂ : month ≤ 12) :
    28 ≤ monthLength year month ∧ monthLength year month ≤ 31 := by
  unfold monthLength daysBefore
  constructor <;> repeat' split
  all_goals omega

theorem day_le (d : Date) : d.day ≤ 31 := by
  have hm := month_bounds d
  exact Int.le_trans (day_bounds d).2 (monthLength_bounds hm.1 hm.2.1).2

theorem quarter_bounds (d : Date) : 1 ≤ d.quarter ∧ d.quarter ≤ 4 := by
  have hm := month_bounds d
  unfold quarter
  omega

theorem era_eq (d : Date) : d.era = 0 ∧ d.year < 1 ∨ d.era = 1 ∧ 1 ≤ d.year := by
  unfold era
  split <;> omega

theorem yearOfEra_eq (d : Date) :
    d.yearOfEra = d.year ∧ 1 ≤ d.year ∨ d.yearOfEra = 1 - d.year ∧ d.year < 1 := by
  unfold yearOfEra
  split <;> omega

/-- The day lies in a year of the calendar or in one next to its ends. -/
def NearCalendar (d : Date) : Prop := minYear - 1 ≤ d.year ∧ d.year ≤ maxYear + 1

theorem nearCalendar_of_epochDay {d : Date} (h₁ : yearStart minYear - 1 ≤ d.epochDay)
    (h₂ : d.epochDay ≤ yearStart (maxYear + 1)) : d.NearCalendar := by
  have hy := year_bounds d
  constructor
  · by_contra h
    have hle := yearStart_le_yearStart (show d.year + 1 ≤ minYear - 1 by omega)
    have hs := yearStart_succ (minYear - 1)
    have hl := yearLength_bounds (minYear - 1)
    rw [Int.sub_add_cancel] at hs
    omega
  · by_contra h
    have hlt := yearStart_lt_yearStart (show maxYear + 1 < d.year by omega)
    omega

theorem InCalendar.nearCalendar {d : Date} (h : d.InCalendar) : d.NearCalendar :=
  nearCalendar_of_epochDay (by have := h.1; omega) (by have := h.2; omega)

theorem inCalendar_iff_epochDay {d : Date} :
    d.InCalendar ↔ -96465292 ≤ d.epochDay ∧ d.epochDay < 95026237 := by
  have hfirst : yearStart minYear = -96465292 := by decide
  have hlast : yearStart (maxYear + 1) = 95026237 := by decide
  rw [InCalendar, hfirst, hlast]

theorem NearCalendar.epochDay_bounds {d : Date} (h : d.NearCalendar) :
    -96465658 ≤ d.epochDay ∧ d.epochDay < 95026602 := by
  have hyear := year_bounds d
  have hfirst : yearStart (minYear - 1) = -96465658 := by decide
  have hlast : yearStart (maxYear + 1 + 1) = 95026602 := by decide
  have hlow := yearStart_le_yearStart h.1
  have hhigh := yearStart_le_yearStart (Int.add_le_add_right h.2 1)
  exact ⟨by omega, by omega⟩

end Date

namespace Reading

theorem secondOfDay_bounds (r : Reading) : 0 ≤ r.secondOfDay ∧ r.secondOfDay < 86400 := by
  unfold secondOfDay secondsPerDay
  omega

theorem hour_bounds (r : Reading) : 0 ≤ r.hour ∧ r.hour ≤ 23 := by
  have := secondOfDay_bounds r
  unfold hour
  omega

theorem minute_bounds (r : Reading) : 0 ≤ r.minute ∧ r.minute ≤ 59 := by
  unfold minute
  omega

theorem secondOfMinute_bounds (r : Reading) : 0 ≤ r.secondOfMinute ∧ r.secondOfMinute ≤ 59 := by
  unfold secondOfMinute
  omega

theorem clippedNano_le (r : Reading) : r.clippedNano ≤ 999999999 := Nat.min_le_right _ _

theorem secondOfDay_eq (r : Reading) :
    r.secondOfDay = r.hour * 3600 + r.minute * 60 + r.secondOfMinute := by
  unfold hour minute secondOfMinute
  omega

theorem inCalendar_iff_second {r : Reading} :
    r.InCalendar ↔ -8334601228800 ≤ r.second ∧ r.second < 8210266876800 := by
  have hday : r.date.epochDay = r.second / 86400 := rfl
  rw [InCalendar, Date.inCalendar_iff_epochDay, hday]
  omega

theorem nearCalendar_shift {r : Reading} {offset : Int} (h : r.InCalendar) (h₁ : -86400 < offset)
    (h₂ : offset < 86400) : (r.shift offset).date.NearCalendar := by
  obtain ⟨hl, hu⟩ := h
  apply Date.nearCalendar_of_epochDay
  · simp only [date, shift, secondsPerDay] at hl ⊢
    omega
  · simp only [date, shift, secondsPerDay] at hu ⊢
    omega

end Reading

namespace DateField

def low : DateField → Int
  | nanoOfDay | nanoOfSecond | milliOfDay | secondOfMinute | minuteOfHour | hourOfAmPm | hourOfDay
  | amPmOfDay | era => 0
  | weekBasedYear => Date.minYear - 2
  | year => Date.minYear - 1
  | _ => 1

def high : DateField → Int
  | nanoOfDay => 86399999999999
  | nanoOfSecond => 999999999
  | milliOfDay => 86399999
  | secondOfMinute | minuteOfHour => 59
  | clockHourOfAmPm | monthOfYear => 12
  | hourOfAmPm => 11
  | clockHourOfDay => 24
  | hourOfDay => 23
  | amPmOfDay | era => 1
  | dayOfWeek | alignedDayOfWeekInMonth => 7
  | dayOfMonth => 31
  | dayOfYear => 366
  | weekOfWeekBasedYear => 53
  | alignedWeekOfMonth => 5
  | quarterOfYear => 4
  | weekBasedYear => Date.maxYear + 2
  | year => Date.maxYear + 1
  | yearOfEra => 1 - (Date.minYear - 1)

def width : DateField → Nat
  | nanoOfDay => 14
  | nanoOfSecond => 9
  | milliOfDay => 8
  | secondOfMinute | minuteOfHour | clockHourOfAmPm | hourOfAmPm | clockHourOfDay | hourOfDay
  | dayOfMonth | weekOfWeekBasedYear | monthOfYear => 2
  | dayOfYear => 3
  | weekBasedYear | year | yearOfEra => 6
  | _ => 1

theorem value_bounds {r : Reading} (h : r.date.NearCalendar) (field : DateField) :
    field.low ≤ field.value r ∧ field.value r ≤ field.high := by
  have hs := r.secondOfDay_bounds
  have hh := r.hour_bounds
  have hn := r.clippedNano_le
  have hd := Date.day_bounds r.date
  have hd' := r.date.day_le
  have hy := Date.dayOfYear_bounds r.date
  have hl := Date.yearLength_bounds r.date.year
  have hw := Date.weekYear_near r.date
  obtain ⟨h₁, h₂⟩ := h
  cases field <;> simp only [low, high, value, Date.minYear, Date.maxYear] at *
  case secondOfMinute => exact r.secondOfMinute_bounds
  case minuteOfHour => exact r.minute_bounds
  case clockHourOfAmPm => split <;> omega
  case clockHourOfDay => split <;> omega
  case dayOfWeek => exact r.date.weekday_bounds
  case weekOfWeekBasedYear => exact r.date.week_bounds
  case monthOfYear => exact ⟨(Date.month_bounds r.date).1, (Date.month_bounds r.date).2.1⟩
  case quarterOfYear => exact r.date.quarter_bounds
  case yearOfEra => rcases r.date.yearOfEra_eq with h | h <;> omega
  case era => rcases r.date.era_eq with h | h <;> omega
  all_goals omega

theorem amPmOfDay_bounds (r : Reading) : 0 ≤ amPmOfDay.value r ∧ amPmOfDay.value r ≤ 1 := by
  have hour := r.hour_bounds
  change 0 ≤ r.hour / 12 ∧ r.hour / 12 ≤ 1
  omega

theorem natAbs_value_lt {r : Reading} (h : r.date.NearCalendar) (field : DateField) :
    (field.value r).natAbs < 10 ^ field.width := by
  obtain ⟨hl, hu⟩ := value_bounds h field
  cases field <;> simp only [low, high, width, Date.minYear, Date.maxYear] at * <;> omega

end DateField

end Almanac
