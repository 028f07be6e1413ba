import Almanac.Date.Lemmas
import Almanac.Date.Week
import Mathlib.Tactic.Common

namespace Almanac.Date

theorem yearStart_le_yearStart {a b : Int} (h : a ≤ b) : yearStart a ≤ yearStart b := by
  rcases Int.lt_or_eq_of_le h with h | rfl
  · exact Int.le_of_lt (yearStart_lt_yearStart h)
  · exact Int.le_refl _

theorem thursday_epochDay (d : Date) :
    d.thursday.epochDay = d.epochDay - (d.epochDay + 3) % 7 + 3 := by
  simp only [thursday, weekStart, weekday]
  omega

theorem weekStart_epochDay (d : Date) :
    d.weekStart.epochDay = d.epochDay - (d.epochDay + 3) % 7 := by
  simp only [weekStart, weekday]
  omega

theorem weekYear_bounds (d : Date) :
    yearStart d.weekYear ≤ d.thursday.epochDay ∧ d.thursday.epochDay < yearStart (d.weekYear + 1) :=
  year_bounds d.thursday

theorem weekYear_eq_of_bounds {d : Date} {weekYear : Int}
    (h₁ : yearStart weekYear ≤ d.thursday.epochDay)
    (h₂ : d.thursday.epochDay < yearStart (weekYear + 1)) : d.weekYear = weekYear :=
  year_eq_of_bounds h₁ h₂

theorem weekYear_near (d : Date) : d.year - 1 ≤ d.weekYear ∧ d.weekYear ≤ d.year + 1 := by
  have ht := thursday_epochDay d
  have hy := year_bounds d
  have hw := weekYear_bounds d
  constructor
  · by_contra h
    have hle := yearStart_le_yearStart (show d.weekYear + 1 ≤ d.year - 1 by omega)
    have hs := yearStart_succ (d.year - 1)
    have hl := yearLength_bounds (d.year - 1)
    rw [Int.sub_add_cancel] at hs
    omega
  · by_contra h
    have hle := yearStart_le_yearStart (show d.year + 1 + 1 ≤ d.weekYear by omega)
    have hs := yearStart_succ (d.year + 1)
    have hl := yearLength_bounds (d.year + 1)
    omega

theorem week_eq (d : Date) : d.week = (d.thursday.epochDay - yearStart d.weekYear) / 7 + 1 := by
  rw [week, dayOfYear, weekYear]
  omega

theorem week_bounds (d : Date) : 1 ≤ d.week ∧ d.week ≤ 53 := by
  have hw := weekYear_bounds d
  have hl := yearLength_bounds d.weekYear
  rw [yearStart_succ] at hw
  rw [week_eq]
  omega

theorem ofYmd_epochDay (year month day : Int) :
    (ofYmd year month day).epochDay = yearStart year + daysBefore year month + day - 1 := rfl

@[simp] theorem daysBefore_one (year : Int) : daysBefore year 1 = 0 := by
  rw [daysBefore, if_pos (by decide)]
  decide

@[simp] theorem daysBefore_twelve (year : Int) : daysBefore year 12 = yearLength year - 31 := by
  unfold daysBefore yearLength
  split <;> split <;> simp_all

theorem weekYearStart_epochDay (weekYear : Int) :
    (weekYearStart weekYear).epochDay = yearStart weekYear + 3 - (yearStart weekYear + 6) % 7 := by
  rw [weekYearStart, weekStart_epochDay, ofYmd_epochDay, daysBefore_one]
  omega

/-- The last week of a week-based year is the one with the last Thursday of its calendar year. -/
theorem weeksIn_eq (weekYear : Int) :
    weeksIn weekYear =
    (yearStart (weekYear + 1) - 1 - (yearStart (weekYear + 1) - 1) % 7 - yearStart weekYear) / 7 +
    1 := by
  have hs := yearStart_succ weekYear
  have hl := yearLength_bounds weekYear
  have ht := thursday_epochDay (ofYmd weekYear 12 28)
  have he : (ofYmd weekYear 12 28).epochDay = yearStart (weekYear + 1) - 4 := by
    rw [ofYmd_epochDay, daysBefore_twelve]
    omega
  have hw : (ofYmd weekYear 12 28).weekYear = weekYear := by
    apply weekYear_eq_of_bounds <;> omega
  rw [weeksIn, week_eq, hw]
  omega

theorem weeksIn_bounds (weekYear : Int) : 52 ≤ weeksIn weekYear ∧ weeksIn weekYear ≤ 53 := by
  have hs := yearStart_succ weekYear
  have hl := yearLength_bounds weekYear
  rw [weeksIn_eq]
  omega

theorem week_le_weeksIn (d : Date) : d.week ≤ weeksIn d.weekYear := by
  have hw := weekYear_bounds d
  have ht := thursday_epochDay d
  rw [week_eq, weeksIn_eq]
  omega

theorem weekStart_eq (d : Date) :
    d.weekStart.epochDay = (weekYearStart d.weekYear).epochDay + 7 * (d.week - 1) := by
  have ht := thursday_epochDay d
  have hw := weekYear_bounds d
  rw [weekStart_epochDay, weekYearStart_epochDay, week_eq]
  omega

theorem ofWeekDate?_week (d : Date) (weekday : Int) :
    ofWeekDate? d.weekYear d.week weekday = covered? ⟨d.weekStart.epochDay + (weekday - 1)⟩ := by
  rw [ofWeekDate?, if_pos ⟨(week_bounds d).1, week_le_weeksIn d⟩, weekStart_eq]

theorem ofWeekDate?_one_one (weekYear : Int) :
    ofWeekDate? weekYear 1 1 = (weekYearStart weekYear).covered? := by
  have hw := weeksIn_bounds weekYear
  rw [ofWeekDate?, if_pos ⟨by decide, by omega⟩]
  simp

theorem weekStart_add_weekday (d : Date) :
    (⟨d.weekStart.epochDay + (d.weekday - 1)⟩ : Date) = d := by
  cases d
  simp only [weekStart, mk.injEq]
  omega

end Almanac.Date
