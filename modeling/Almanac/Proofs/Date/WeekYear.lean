import Almanac.Date.Shift
import Almanac.Proofs.Date.Months

namespace Almanac.Date

variable {a b d date : Date} {weekYear week weekday amount : Int}

theorem year_le (h : a.epochDay ≤ b.epochDay) : a.year ≤ b.year := by
  have ha := year_bounds a
  have hb := year_bounds b
  by_contra hlt
  have hle := yearStart_le_yearStart (show b.year + 1 ≤ a.year by omega)
  omega

theorem weekYear_le (h : a.epochDay ≤ b.epochDay) : a.weekYear ≤ b.weekYear := by
  apply year_le
  rw [thursday_epochDay, thursday_epochDay]
  omega

theorem weekYearStart_le (d : Date) : (weekYearStart d.weekYear).epochDay ≤ d.epochDay := by
  have hw := weekYear_bounds d
  have ht := thursday_epochDay d
  rw [weekYearStart_epochDay]
  omega

theorem epochDay_eq_weekYearStart (d : Date) :
    d.epochDay = (weekYearStart d.weekYear).epochDay + 7 * (d.week - 1) + (d.weekday - 1) := by
  have hstart := weekStart_eq d
  have hmonday : d.weekStart.epochDay = d.epochDay - (d.weekday - 1) := rfl
  omega

theorem eq_of_weekDate_eq (hy : d.weekYear = date.weekYear) (hw : d.week = date.week)
    (hd : d.weekday = date.weekday) :
    d = date := by
  have hday := epochDay_eq_weekYearStart d
  rw [hy, hw, hd, ← epochDay_eq_weekYearStart] at hday
  exact eq_of_epochDay_eq hday

@[simp] theorem weekYear_weekYearStart (weekYear : Int) :
    (weekYearStart weekYear).weekYear = weekYear := by
  have hs := weekYearStart_epochDay weekYear
  have ht := thursday_epochDay (weekYearStart weekYear)
  have hl := yearLength_bounds weekYear
  have hnext := yearStart_succ weekYear
  apply weekYear_eq_of_bounds <;> omega

theorem weekYearStart_succ (weekYear : Int) :
    (weekYearStart (weekYear + 1)).epochDay =
    (weekYearStart weekYear).epochDay + 7 * weeksIn weekYear := by
  have hl := yearLength_bounds weekYear
  have hnext := yearStart_succ weekYear
  rw [weekYearStart_epochDay, weekYearStart_epochDay, weeksIn_eq]
  omega

theorem weekYearStart_le_weekYearStart {a b : Int} (h : a ≤ b) :
    (weekYearStart a).epochDay ≤ (weekYearStart b).epochDay := by
  by_contra hlt
  have hle := weekYear_le (Int.le_of_lt (Int.not_le.1 hlt))
  rw [weekYear_weekYearStart, weekYear_weekYearStart] at hle
  obtain rfl := Int.le_antisymm h hle
  exact hlt (Int.le_refl _)

theorem weekYearStart_le_iff :
    (weekYearStart weekYear).epochDay ≤ d.epochDay ↔ weekYear ≤ d.weekYear := by
  refine ⟨fun h ↦ ?_, fun h ↦ Int.le_trans (weekYearStart_le_weekYearStart h) (weekYearStart_le d)⟩
  rw [← weekYear_weekYearStart weekYear]
  exact weekYear_le h

theorem lt_weekYearStart_succ (d : Date) :
    d.epochDay < (weekYearStart (d.weekYear + 1)).epochDay := by
  by_contra hle
  have h := weekYear_le (Int.not_lt.1 hle)
  rw [weekYear_weekYearStart] at h
  omega

/-- A week-based year holds the days from its start to the start of the next. -/
theorem weekYear_eq_iff :
    d.weekYear = weekYear ↔ (weekYearStart weekYear).epochDay ≤ d.epochDay ∧
    d.epochDay < (weekYearStart (weekYear + 1)).epochDay := by
  refine ⟨fun h ↦ h ▸ ⟨weekYearStart_le d, lt_weekYearStart_succ d⟩, fun ⟨hl, hu⟩ ↦ ?_⟩
  have hle := weekYear_le hl
  rw [weekYear_weekYearStart] at hle
  by_contra hne
  have hnext := weekYearStart_le_weekYearStart (show weekYear + 1 ≤ d.weekYear by omega)
  have hstart := weekYearStart_le d
  omega

theorem weekYear_ofWeekDate? (hd : 1 ≤ weekday ∧ weekday ≤ 7)
    (h : ofWeekDate? weekYear week weekday = some date) :
    date.weekYear = weekYear ∧ date.InCalendar := by
  unfold ofWeekDate? at h
  split at h
  · rename_i hweek
    obtain ⟨hc, rfl⟩ := inCalendar_of_covered? h
    have hnext := weekYearStart_succ weekYear
    exact ⟨weekYear_eq_iff.2 (by simp only; omega), hc⟩
  · cases h

theorem week_weekday_of_ofWeekDate? (hd : 1 ≤ weekday ∧ weekday ≤ 7)
    (h : ofWeekDate? weekYear week weekday = some date) :
    date.week = week ∧ date.weekday = weekday := by
  have hyear := (weekYear_ofWeekDate? hd h).1
  have hday := epochDay_eq_weekYearStart date
  have hmonday : (weekYearStart weekYear).weekday = 1 := weekday_weekStart _
  unfold ofWeekDate? at h
  split at h
  · obtain ⟨-, rfl⟩ := inCalendar_of_covered? h
    have hweekday :
        Date.weekday ⟨(weekYearStart weekYear).epochDay + 7 * (week - 1) + (weekday - 1)⟩ =
        weekday := by
      unfold Date.weekday at hmonday ⊢
      simp only at hmonday ⊢
      omega
    rw [hyear, hweekday] at hday
    exact ⟨by simp only at hday; omega, hweekday⟩
  · cases h

/-- The calendar begins on the first Thursday of a week-based year. -/
theorem minYear_le_weekYear (h : d.InCalendar) : minYear ≤ d.weekYear := by
  have hfirst : (⟨yearStart minYear⟩ : Date).weekYear = minYear := by decide
  have hle := @weekYear_le ⟨yearStart minYear⟩ d h.1
  rwa [hfirst] at hle

theorem le_weekDate (h₁ : 0 ≤ amount) :
    d.epochDay ≤ (weekYearStart (d.weekYear + amount)).epochDay +
    7 * (min d.week (weeksIn (d.weekYear + amount)) - 1) + (d.weekday - 1) := by
  have hweekday := weekday_bounds d
  have hweek := week_bounds d
  have hweeks := weeksIn_bounds (d.weekYear + amount)
  rcases Int.lt_or_eq_of_le h₁ with hpos | rfl
  · have hnext := lt_weekYearStart_succ d
    have hle := weekYearStart_le_weekYearStart (show d.weekYear + 1 ≤ d.weekYear + amount by omega)
    omega
  · have hown := week_le_weeksIn d
    have hday := epochDay_eq_weekYearStart d
    rw [Int.add_zero]
    omega

/-- Week-based years move the week-based year and keep the weekday and the week, up to the last week
there is. -/
theorem weekDate_of_addWeekYears? (h : d.addWeekYears? amount = some date) :
    date.weekYear = d.weekYear + amount ∧
    date.week = min d.week (weeksIn (d.weekYear + amount)) ∧ date.weekday = d.weekday := by
  obtain ⟨last, hlast, hdate⟩ := Option.bind_eq_some_iff.1 h
  obtain rfl := eq_ofYmd_of_ofYmd? hlast
  have hweekday := weekday_bounds d
  exact ⟨(weekYear_ofWeekDate? hweekday hdate).1, week_weekday_of_ofWeekDate? hweekday hdate⟩

theorem exists_addWeekYears? (hc : d.InCalendar) (h₁ : 0 ≤ amount)
    (h₂ : d.weekYear + amount ≤ maxYear) :
    ∃ date, d.addWeekYears? amount = some date ∧ date.weekYear = d.weekYear + amount ∧
    date.InCalendar := by
  have hmin := minYear_le_weekYear hc
  have hlast : ofYmd? (d.weekYear + amount) 12 28 = some (ofYmd (d.weekYear + amount) 12 28) := by
    have hlen := monthLength_twelve (d.weekYear + amount)
    rw [ofYmd?_eq (by decide) (by decide) (by decide) (by omega), covered?_of_inCalendar]
    rw [inCalendar_iff_year, year_ofYmd (by decide) (by decide) (by decide) (by omega)]
    omega
  have hadd : d.addWeekYears? amount =
      ofWeekDate? (d.weekYear + amount) (min d.week (weeksIn (d.weekYear + amount))) d.weekday := by
    rw [addWeekYears?, hlast]
    rfl
  have hweekday := weekday_bounds d
  have hweek := week_bounds d
  have hweeks := weeksIn_bounds (d.weekYear + amount)
  have hle := @le_weekDate d amount h₁
  have hnext := weekYearStart_succ (d.weekYear + amount)
  have hend := weekYearStart_le_weekYearStart (show d.weekYear + amount + 1 ≤ maxYear + 1 by omega)
  have hcalendar : (weekYearStart (maxYear + 1)).epochDay < yearStart (maxYear + 1) := by decide
  have hcovered := hc.1
  have hdate : d.addWeekYears? amount = some ⟨(weekYearStart (d.weekYear + amount)).epochDay +
      7 * (min d.week (weeksIn (d.weekYear + amount)) - 1) + (d.weekday - 1)⟩ := by
    rw [hadd, ofWeekDate?, if_pos (by omega), covered?_of_inCalendar]
    exact ⟨by simp only; omega, by simp only; omega⟩
  exact ⟨_, hdate, weekYear_ofWeekDate? hweekday (hadd ▸ hdate)⟩

end Almanac.Date
