import Almanac.Proofs.FieldValues.Date
import Almanac.Proofs.FieldValues.Widths

namespace Almanac

namespace Date

theorem dayOfYear_of_weekYear_gt {d : Date} (h : d.year < d.weekYear) : 363 ≤ d.dayOfYear := by
  have hlength := yearLength_bounds d.year
  have hnext := yearStart_succ d.year
  rcases year_end_cases (by omega : d.weekYear ≠ d.year) with ⟨-, -, hday, -, hepoch⟩ | ⟨hyear, -⟩
  · unfold dayOfYear
    omega
  · omega

theorem dayOfYear_of_weekYear_lt {d : Date} (h : d.weekYear < d.year) : d.dayOfYear ≤ 3 := by
  rcases year_end_cases (by omega : d.weekYear ≠ d.year) with ⟨hyear, -⟩ | ⟨-, -, -, hday, hepoch⟩
  · omega
  · unfold dayOfYear
    omega

theorem daysBefore_le (year year' month : Int) :
    daysBefore year month ≤ daysBefore year' month + 1 := by
  unfold daysBefore
  split
  · omega
  · split <;> split <;> omega

end Date

namespace FieldValues

variable {v : FieldValues} {year year' weekYear : Int} {date other : Date}

theorem year_of_dateIn (h : v.dateIn year = .ok date) : date.year = year := by
  rcases dateIn_cases h with ⟨-, day, -, hfound⟩ | ⟨-, month, day, -, -, hfound⟩
  · exact (Date.year_dayOfYear_of_ofYearDay? hfound).1
  · exact (Date.year_month_day_of_ofYmd? hfound).1

theorem dayOfYear_le_of_dateIn (h : v.dateIn year = .ok date) (h' : v.dateIn year' = .ok other) :
    date.dayOfYear ≤ other.dayOfYear + 1 := by
  rcases dateIn_cases h with ⟨hby, day, hday, hfound⟩ | ⟨hby, month, day, hmonth, hday, hfound⟩ <;>
    rcases dateIn_cases h' with ⟨hby', day', hday', hfound'⟩ |
      ⟨hby', month', day', hmonth', hday', hfound'⟩
  · obtain rfl := Except.ok.inj (hday.symm.trans hday')
    rw [(Date.year_dayOfYear_of_ofYearDay? hfound).2, (Date.year_dayOfYear_of_ofYearDay? hfound').2]
    omega
  · exact absurd hby hby'
  · exact absurd hby' hby
  · obtain rfl := Except.ok.inj (hmonth.symm.trans hmonth')
    obtain rfl := Except.ok.inj (hday.symm.trans hday')
    obtain ⟨-, hm, hd⟩ := Date.year_month_day_of_ofYmd? hfound
    obtain ⟨-, hm', hd'⟩ := Date.year_month_day_of_ofYmd? hfound'
    have hle := Date.daysBefore_le date.year other.year month
    unfold Date.day at hd hd'
    rw [hm] at hd
    rw [hm'] at hd'
    omega

theorem dateInWeekYear?_eq_some_iff :
    v.dateInWeekYear? weekYear year = some date ↔ v.dateIn year = .ok date ∧
    date.weekYear = weekYear := by
  rw [dateInWeekYear?, Option.filter_eq_some_iff]
  cases v.dateIn year <;> simp [Except.toOption]

/-- Only the calendar year of the same number and those beside it have days of a week-based year. -/
theorem mem_of_dateInWeekYear? (h : v.dateInWeekYear? weekYear year = some date) :
    year ∈ [weekYear, weekYear - 1, weekYear + 1] := by
  obtain ⟨hdate, hweek⟩ := dateInWeekYear?_eq_some_iff.1 h
  have hyear := year_of_dateIn hdate
  have hnear := Date.weekYear_near date
  simp only [List.mem_cons, List.not_mem_nil, or_false]
  omega

theorem dateInWeekYear_eq (h : v.dateInWeekYear? weekYear weekYear = some date) :
    v.dateInWeekYear weekYear = .ok date := by
  rw [dateInWeekYear, List.findSome?_cons, h]

theorem dateInWeekYear_of_forall (h : ∀ year, v.dateInWeekYear? weekYear year = none) :
    v.dateInWeekYear weekYear = v.dateIn weekYear := by
  rw [dateInWeekYear, List.findSome?_eq_none_iff.2 fun year _ ↦ h year]

theorem exists_dateInWeekYear (h : v.dateInWeekYear? weekYear year = some date) :
    ∃ year found, v.dateInWeekYear? weekYear year = some found ∧
    v.dateInWeekYear weekYear = .ok found := by
  have hsome : ([weekYear, weekYear - 1, weekYear + 1].findSome?
      (v.dateInWeekYear? weekYear)).isSome := by
    rw [List.findSome?_isSome_iff]
    exact ⟨year, mem_of_dateInWeekYear? h, Option.isSome_of_mem h⟩
  obtain ⟨found, hfound⟩ := Option.isSome_iff_exists.1 hsome
  obtain ⟨year, -, hyear⟩ := List.exists_of_findSome?_eq_some hfound
  refine ⟨year, found, hyear, ?_⟩
  rw [dateInWeekYear, hfound]

/-- Beside the calendar year of the same number only one year can have such a day. -/
theorem eq_of_dateInWeekYear? (h : v.dateInWeekYear? weekYear year = some date)
    (hne : year ≠ weekYear) (h' : v.dateInWeekYear? weekYear year' = some other)
    (hne' : year' ≠ weekYear) : other = date := by
  obtain ⟨hdate, hweek⟩ := dateInWeekYear?_eq_some_iff.1 h
  obtain ⟨hother, hweek'⟩ := dateInWeekYear?_eq_some_iff.1 h'
  obtain rfl := year_of_dateIn hdate
  obtain rfl := year_of_dateIn hother
  have hle := dayOfYear_le_of_dateIn hdate hother
  have hle' := dayOfYear_le_of_dateIn hother hdate
  have hnear := Date.weekYear_near date
  have hnear' := Date.weekYear_near other
  have hsame : other.year = date.year := by
    rcases Int.lt_or_gt_of_ne hne with hlt | hgt <;> rcases Int.lt_or_gt_of_ne hne' with hlt' | hgt'
    · omega
    · have hend := Date.dayOfYear_of_weekYear_gt (hweek.symm ▸ hlt)
      have hstart := Date.dayOfYear_of_weekYear_lt (hweek'.symm ▸ hgt')
      omega
    · have hstart := Date.dayOfYear_of_weekYear_lt (hweek.symm ▸ hgt)
      have hend := Date.dayOfYear_of_weekYear_gt (hweek'.symm ▸ hlt')
      omega
    · omega
  rw [hsame] at hother
  exact Except.ok.inj (hother.symm.trans hdate)

theorem checkYear_of_dateInWeekYear? (h : v.dateInWeekYear? weekYear year = some date) :
    checkYear .year weekYear = .ok weekYear := by
  obtain ⟨hl, hu⟩ := weekYear_bounds_of_dateInWeekYear? h
  exact if_pos ⟨by omega, by omega⟩

/-- A day written with a week-based year is a day of that week-based year if any calendar year has
one: that in the calendar year of the same number, or else the only one there is. If none has one,
it is the day in the calendar year of that number. -/
theorem day_sought_in_week_year (hw : v.get? .weekBasedYear = some weekYear)
    (hy : v.get? .year = none) (hy' : v.get? .yearOfEra = none)
    (hd : v.contains .dayOfMonth ∨ v.contains .dayOfYear) :
    (∀ year date, v.dateIn year = .ok date → date.weekYear = weekYear →
      ∃ year found, v.dateIn year = .ok found ∧ found.weekYear = weekYear ∧
        v.chosenDate = .ok found) ∧
    (∀ date, v.dateIn weekYear = .ok date → date.weekYear = weekYear → v.chosenDate = .ok date) ∧
    (∀ year date, year ≠ weekYear → v.dateIn year = .ok date → date.weekYear = weekYear →
      (∀ own, v.dateIn weekYear = .ok own → own.weekYear ≠ weekYear) → v.chosenDate = .ok date) ∧
    ((∀ year date, v.dateIn year = .ok date → date.weekYear ≠ weekYear) →
      v.chosenDate =
        if -2147483648 ≤ weekYear ∧ weekYear ≤ 2147483647 then v.dateIn weekYear
        else .error (.outOfRange .year weekYear)) := by
  have hchosen := chosenDate_of_weekBasedYear hw hy hy' hd
  have hsought {year : Int} {date : Date} (h : v.dateInWeekYear? weekYear year = some date) :
      v.chosenDate = v.dateInWeekYear weekYear := by
    rw [hchosen, checkYear_of_dateInWeekYear? h]
    rfl
  refine ⟨fun year date hdate hweek ↦ ?_,
    fun date hdate hweek ↦ ?_, fun year date hne hdate hweek hown ↦ ?_, fun hno ↦ ?_⟩
  · have h := dateInWeekYear?_eq_some_iff.2 ⟨hdate, hweek⟩
    obtain ⟨year, found, hyear, hfound⟩ := exists_dateInWeekYear h
    obtain ⟨hin, hweek⟩ := dateInWeekYear?_eq_some_iff.1 hyear
    exact ⟨year, found, hin, hweek, (hsought h).trans hfound⟩
  · have h := dateInWeekYear?_eq_some_iff.2 ⟨hdate, hweek⟩
    exact (hsought h).trans (dateInWeekYear_eq h)
  · have h := dateInWeekYear?_eq_some_iff.2 ⟨hdate, hweek⟩
    obtain ⟨year', found, hyear, hfound⟩ := exists_dateInWeekYear h
    obtain ⟨hin, hweek'⟩ := dateInWeekYear?_eq_some_iff.1 hyear
    have hne' : year' ≠ weekYear := by
      rintro rfl
      exact hown found hin hweek'
    rw [hsought h, hfound, eq_of_dateInWeekYear? h hne hyear hne']
  · have hnone (year : Int) : v.dateInWeekYear? weekYear year = none := by
      rw [Option.eq_none_iff_forall_ne_some]
      intro date h
      obtain ⟨hin, hweek⟩ := dateInWeekYear?_eq_some_iff.1 h
      exact hno year date hin hweek
    rw [hchosen, checkYear]
    split
    · exact dateInWeekYear_of_forall hnone
    · rfl

theorem day_366_sought :
    let f : Format :=
      ⟨"YYYY.DDD", [.number .weekBasedYear 4 10, .literal ['.'], .number .dayOfYear 3 3]⟩
    ∃ v w, Format.compile "YYYY.DDD" = .ok f ∧ f.read "2025.366" = .ok v ∧
    f.read "2021.366" = .ok w ∧
      v.chosenDate = .ok (.ofYmd 2024 12 31) ∧
      w.chosenDate = .error (.unrepresentable (.dayOfYear 366 2021)) := by
  intro f
  let v : FieldValues := ⟨[(.dayOfYear, 366), (.weekBasedYear, 2025)]⟩
  let w : FieldValues := ⟨[(.dayOfYear, 366), (.weekBasedYear, 2021)]⟩
  refine ⟨v, w, by decide +kernel, by decide +kernel, by decide +kernel, ?_, ?_⟩
  · obtain ⟨-, -, hbeside, -⟩ := @day_sought_in_week_year v 2025 rfl rfl rfl (by decide)
    have hown : v.dateIn 2025 = .error (.unrepresentable (.dayOfYear 366 2025)) := by decide
    refine hbeside 2024 _ (by decide) (by decide) (by decide) fun own h ↦ ?_
    rw [hown] at h
    cases h
  · obtain ⟨-, -, -, hnone⟩ := @day_sought_in_week_year w 2021 rfl rfl rfl (by decide)
    refine hnone fun year date hdate hweek ↦ ?_
    have hno : ∀ year ∈ [2021, 2021 - 1, 2021 + 1], w.dateInWeekYear? 2021 year = none := by decide
    have h := dateInWeekYear?_eq_some_iff.2 ⟨hdate, hweek⟩
    rw [hno year (mem_of_dateInWeekYear? h)] at h
    cases h

end FieldValues

end Almanac
