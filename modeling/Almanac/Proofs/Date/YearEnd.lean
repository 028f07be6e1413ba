import Almanac.Date.Shift
import Almanac.Proofs.DateField

namespace Almanac.Date

theorem eq_of_epochDay_eq {a b : Date} (h : a.epochDay = b.epochDay) : a = b := by
  cases a
  cases b
  exact congrArg mk h

theorem inCalendar_iff_year {d : Date} : d.InCalendar ↔ minYear ≤ d.year ∧ d.year ≤ maxYear := by
  have hy := year_bounds d
  constructor
  · rintro ⟨h₁, h₂⟩
    constructor
    · by_contra h
      have := yearStart_le_yearStart (show d.year + 1 ≤ minYear by omega)
      omega
    · by_contra h
      have := yearStart_le_yearStart (show maxYear + 1 ≤ d.year by omega)
      omega
  · rintro ⟨h₁, h₂⟩
    have hl := yearStart_le_yearStart h₁
    have hu := yearStart_le_yearStart (show d.year + 1 ≤ maxYear + 1 by omega)
    exact ⟨by omega, by omega⟩

theorem covered?_of_inCalendar {d : Date} (h : d.InCalendar) : d.covered? = some d := if_pos h

theorem ofYmd?_eq {year month day : Int} (hm₁ : 1 ≤ month) (hm₂ : month ≤ 12) (hd₁ : 1 ≤ day)
    (hd₂ : day ≤ monthLength year month) :
    ofYmd? year month day = (ofYmd year month day).covered? :=
  if_pos ⟨hm₁, hm₂, hd₁, hd₂⟩

theorem ofYmd?_year_month_day {d : Date} (h : d.InCalendar) :
    ofYmd? d.year d.month d.day = some d := by
  have hm := month_bounds d
  have hd := day_bounds d
  simp [ofYmd?_eq hm.1 hm.2.1 hd.1 hd.2, covered?_of_inCalendar h]

theorem ofYearDay?_year_dayOfYear {d : Date} (h : d.InCalendar) :
    ofYearDay? d.year d.dayOfYear = some d := by
  have he : (⟨yearStart d.year + d.dayOfYear - 1⟩ : Date) = d :=
    eq_of_epochDay_eq (by simp only [dayOfYear]; omega)
  rw [ofYearDay?, if_pos (dayOfYear_bounds d), he, covered?_of_inCalendar h]

@[simp] theorem monthLength_one (year : Int) : monthLength year 1 = 31 := by
  rw [monthLength, daysBefore_one, daysBefore, if_pos (by decide)]
  decide

theorem monthLength_two (year : Int) : monthLength year 2 = if IsLeap year then 29 else 28 := by
  by_cases hleap : IsLeap year <;> simp [monthLength, daysBefore, hleap]

theorem monthLength_eq_of_ne_two {month : Int} (h₁ : 1 ≤ month) (h₂ : month ≤ 12) (h : month ≠ 2)
    (a b : Int) :
    monthLength a month = monthLength b month := by
  unfold monthLength daysBefore
  repeat' split
  all_goals omega

@[simp] theorem monthLength_twelve (year : Int) : monthLength year 12 = 31 := by
  have h := daysBefore_thirteen year
  rw [monthLength, daysBefore_twelve, show (12 : Int) + 1 = 13 by decide, h]
  omega

theorem month_day_of_ofYmd_eq {d : Date} {year month day : Int} (h : ofYmd year month day = d)
    (hm₁ : 1 ≤ month) (hm₂ : month ≤ 12) (hd₁ : 1 ≤ day) (hd₂ : day ≤ monthLength year month) :
    d.month = month ∧ d.day = day :=
  h ▸ ⟨month_ofYmd hm₁ hm₂ hd₁ hd₂, day_ofYmd hm₁ hm₂ hd₁ hd₂⟩

/-- A day of another week-based year is one of the last three days of December or of the first three
of January. -/
theorem year_end_cases {d : Date} (h : d.weekYear ≠ d.year) :
    (d.weekYear = d.year + 1 ∧ d.month = 12 ∧ 29 ≤ d.day ∧ d.day ≤ 31 ∧
      d.epochDay = yearStart (d.year + 1) - 32 + d.day) ∨
    (d.weekYear = d.year - 1 ∧ d.month = 1 ∧ 1 ≤ d.day ∧ d.day ≤ 3 ∧
      d.epochDay = yearStart d.year + d.day - 1) := by
  have hy := year_bounds d
  have ht := thursday_epochDay d
  have hw := weekYear_bounds d
  have hs := yearStart_succ d.year
  have hnear := weekYear_near d
  rcases Int.lt_or_gt_of_ne h with hlt | hgt
  · have hlast : d.weekYear = d.year - 1 := by omega
    rw [hlast, Int.sub_add_cancel] at hw
    have hd : ofYmd d.year 1 (d.epochDay - yearStart d.year + 1) = d :=
      eq_of_epochDay_eq (by rw [ofYmd_epochDay, daysBefore_one]; omega)
    have hlen := monthLength_one d.year
    obtain ⟨hmonth, hday⟩ := month_day_of_ofYmd_eq hd (by decide) (by decide) (by omega) (by omega)
    exact .inr ⟨hlast, hmonth, by omega, by omega, by omega⟩
  · have hnext : d.weekYear = d.year + 1 := by omega
    rw [hnext] at hw
    have hd : ofYmd d.year 12 (d.epochDay - yearStart (d.year + 1) + 32) = d :=
      eq_of_epochDay_eq (by rw [ofYmd_epochDay, daysBefore_twelve]; omega)
    have hlen := monthLength_twelve d.year
    obtain ⟨hmonth, hday⟩ := month_day_of_ofYmd_eq hd (by decide) (by decide) (by omega) (by omega)
    exact .inl ⟨hnext, hmonth, by omega, by omega, by omega⟩

/-- The day of the same month and number in the calendar year that is called by the same number as
the week-based year of the day. -/
def namesake (d : Date) : Date := ofYmd d.weekYear d.month d.day

theorem namesake_epochDay {d : Date} (h : d.weekYear ≠ d.year) :
    (d.namesake.epochDay = d.epochDay + yearLength d.weekYear ∧
      yearStart d.weekYear - 3 ≤ d.epochDay ∧ d.epochDay < yearStart d.weekYear) ∨
    (d.namesake.epochDay = d.epochDay - yearLength d.weekYear ∧
      yearStart (d.weekYear + 1) ≤ d.epochDay ∧ d.epochDay < yearStart (d.weekYear + 1) + 3) := by
  have hs := yearStart_succ d.weekYear
  rcases year_end_cases h with ⟨hy, hm, hd⟩ | ⟨hy, hm, hd⟩
  · rw [← hy] at hd
    rw [namesake, ofYmd_epochDay, hm, daysBefore_twelve]
    omega
  · rw [show d.year = d.weekYear + 1 by omega] at hd
    rw [namesake, ofYmd_epochDay, hm, daysBefore_one]
    omega

/-- A day at the end of a year shares its written form with its namesake just if the week-based year
has 53 weeks. -/
theorem weekYear_namesake {d : Date} (h : d.weekYear ≠ d.year) :
    d.namesake.weekYear = d.weekYear ↔ weeksIn d.weekYear = 53 := by
  have ht := thursday_epochDay d
  have hw := weekYear_bounds d
  have hn := thursday_epochDay d.namesake
  have hs := yearStart_succ d.weekYear
  have hl := yearLength_bounds d.weekYear
  have hweeks := weeksIn_eq d.weekYear
  have he := namesake_epochDay h
  constructor
  · intro hyear
    have hnw := weekYear_bounds d.namesake
    rw [hyear] at hnw
    omega
  · intro hlong
    apply weekYear_eq_of_bounds <;> omega

theorem namesake_valid {d : Date} (h : d.weekYear ≠ d.year) :
    1 ≤ d.month ∧ d.month ≤ 12 ∧ 1 ≤ d.day ∧ d.day ≤ monthLength d.weekYear d.month := by
  rcases year_end_cases h with ⟨-, hm, hd⟩ | ⟨-, hm, hd⟩
  · rw [hm, monthLength_twelve]
    omega
  · rw [hm, monthLength_one]
    omega

theorem namesake_inCalendar {d : Date} (h : d.weekYear ≠ d.year) (hlong : weeksIn d.weekYear = 53)
    (hc : d.InCalendar) : d.namesake.InCalendar := by
  have hyear := inCalendar_iff_year.1 hc
  have hnear := weekYear_near d
  -- The years next to the ends of the calendar have 52 weeks, so that the namesake is covered.
  have hfirst : d.weekYear ≠ minYear - 1 := by
    intro he
    rw [he] at hlong
    revert hlong
    decide
  have hlast : d.weekYear ≠ maxYear + 1 := by
    intro he
    rw [he] at hlong
    revert hlong
    decide
  obtain ⟨hm₁, hm₂, hd₁, hd₂⟩ := namesake_valid h
  have hn : d.namesake.year = d.weekYear := year_ofYmd hm₁ hm₂ hd₁ hd₂
  rw [inCalendar_iff_year, hn]
  omega

def inWeekYear? (d : Date) (year : Int) : Option Date :=
  (ofYmd? year d.month d.day).filter fun date ↦ date.weekYear = d.weekYear

theorem inWeekYear?_year {d : Date} (h : d.InCalendar) : d.inWeekYear? d.year = some d := by
  rw [inWeekYear?, ofYmd?_year_month_day h]
  simp

theorem eq_ofYmd_of_ofYmd? {year month day : Int} {d : Date} (h : ofYmd? year month day = some d) :
    d = ofYmd year month day := by
  unfold ofYmd? covered? at h
  split at h
  · split at h
    · exact (Option.some.inj h).symm
    · cases h
  · cases h

theorem inWeekYear?_eq_none {d : Date} {year : Int}
    (h : (ofYmd year d.month d.day).weekYear ≠ d.weekYear) : d.inWeekYear? year = none := by
  rw [inWeekYear?, Option.filter_eq_none_iff]
  intro date hdate
  rw [eq_ofYmd_of_ofYmd? hdate]
  simpa using h

theorem inWeekYear?_weekYear {d : Date} (h : d.weekYear ≠ d.year) (hlong : weeksIn d.weekYear = 53)
    (hc : d.InCalendar) : d.inWeekYear? d.weekYear = some d.namesake := by
  have hv := namesake_valid h
  rw [inWeekYear?, ofYmd?, if_pos hv]
  change (d.namesake.covered?).filter _ = _
  rw [covered?_of_inCalendar (namesake_inCalendar h hlong hc)]
  simpa using (weekYear_namesake h).2 hlong

def named (d : Date) : Date :=
  if d.weekYear ≠ d.year ∧ weeksIn d.weekYear = 53 then d.namesake else d

/-- The search from the week-based year to the year before it and the year after it ends at the
namesake of the day if the two share their written form, else at the day. -/
theorem findSome?_inWeekYear? {d : Date} (hc : d.InCalendar) :
    [d.weekYear, d.weekYear - 1, d.weekYear + 1].findSome? d.inWeekYear? = some d.named := by
  unfold named
  by_cases h : d.weekYear = d.year
  · rw [if_neg (fun hn ↦ hn.1 h), List.findSome?_cons, h, inWeekYear?_year hc]
  · by_cases hlong : weeksIn d.weekYear = 53
    · rw [if_pos ⟨h, hlong⟩, List.findSome?_cons, inWeekYear?_weekYear h hlong hc]
    · have hown : d.inWeekYear? d.weekYear = none :=
        inWeekYear?_eq_none (fun he ↦ hlong ((weekYear_namesake h).1 he))
      rw [if_neg (fun hn ↦ hlong hn.2), List.findSome?_cons, hown, List.findSome?_cons]
      rcases year_end_cases h with ⟨hy, -⟩ | ⟨hy, hm, -, hd, -⟩
      · rw [show d.weekYear - 1 = d.year by omega, inWeekYear?_year hc]
      · have hbefore : d.inWeekYear? (d.weekYear - 1) = none := by
          apply inWeekYear?_eq_none
          rw [hm]
          intro he
          have hw := weekYear_bounds (ofYmd (d.weekYear - 1) 1 d.day)
          have ht := thursday_epochDay (ofYmd (d.weekYear - 1) 1 d.day)
          have hs := yearStart_succ (d.weekYear - 1)
          have hl := yearLength_bounds (d.weekYear - 1)
          rw [ofYmd_epochDay, daysBefore_one] at ht
          rw [he] at hw
          rw [Int.sub_add_cancel] at hs
          omega
        rw [hbefore, List.findSome?_cons, show d.weekYear + 1 = d.year by omega,
          inWeekYear?_year hc]

end Almanac.Date
