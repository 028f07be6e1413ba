import Almanac.Proofs.ZonedTime.Limits

namespace Almanac

def CalendarUnit.uneven : List CalendarUnit := [.months, .quarters, .years, .weekBasedYears, .eras]

namespace Date

variable {d e date whole : Date} {a b amount : Int}

theorem day_addMonths?_of_le (h : d.addMonths? amount = some date) (hd : d.day ≤ 28) :
    date.day = d.day := by
  have hlength := @monthLength_bounds ((d.monthIndex + amount) / 12)
    ((d.monthIndex + amount) % 12 + 1)
    (by omega) (by omega)
  rw [day_of_inMonth? h]
  omega

/-- After two moves by months the day is the smaller of those after the first and after a move by
their sum. -/
theorem addMonths?_addMonths? (ha : d.addMonths? a = some e) (hb : e.addMonths? b = some date)
    (hab : d.addMonths? (a + b) = some whole) :
    date.monthIndex = whole.monthIndex ∧ date.day = min e.day whole.day := by
  obtain ⟨he, -⟩ := monthIndex_of_inMonth? ha
  obtain ⟨hdate, -⟩ := monthIndex_of_inMonth? hb
  obtain ⟨hwhole, -⟩ := monthIndex_of_inMonth? hab
  have hindex : e.monthIndex + b = d.monthIndex + (a + b) := by omega
  have hday := day_of_inMonth? ha
  have hday' := day_of_inMonth? hb
  have hday'' := day_of_inMonth? hab
  rw [hindex] at hday'
  exact ⟨by omega, by omega⟩

end Date

namespace ZonedTime

variable {t r : ZonedTime} {amount n : Int} {unit : CalendarUnit}

theorem exists_date_of_utc_plus? (hz : t.zone = .utc) (hu : unit ∈ CalendarUnit.uneven)
    (h : t.plus? amount unit = some r) :
    ∃ date, t.utc.date.plus? amount unit = some date ∧ r = ⟨.utc, t.utc.onDate date⟩ := by
  obtain ⟨zone, reading⟩ := t
  obtain rfl : zone = .utc := hz
  have hplus : (⟨.utc, reading⟩ : ZonedTime).plus? amount unit =
      ((ZonedTime.wall ⟨.utc, reading⟩).date.plus? amount unit).bind
      (ZonedTime.onDate? ⟨.utc, reading⟩) := by
    cases unit with
    | months | quarters | years | weekBasedYears | eras => rfl
    | _ => exact absurd hu (by decide)
  rw [hplus, utc_wall] at h
  obtain ⟨date, hdate, hon⟩ := Option.bind_eq_some_iff.1 h
  rw [utc_onDate?] at hon
  exact ⟨date, hdate, (eq_of_covered? hon).2⟩

/-- Two steps of months lead to the same month and time of day as one step of their sum, on the
smaller of the days that the first step and the step of the sum leave. Quarters and years are so
many months. -/
theorem month_steps_compose (hz : t.zone = .utc) (hc : t.utc.InCalendar)
    (hn : t.utc.nano < 2000000000) :
    (∀ a b r s u, t.plus? a .months = some r → r.plus? b .months = some s →
      t.plus? (a + b) .months = some u →
      (s.utc.date.year = u.utc.date.year ∧ s.utc.date.month = u.utc.date.month) ∧
      (s.utc.secondOfDay = t.utc.secondOfDay ∧ s.utc.nano = t.utc.nano) ∧
      (u.utc.secondOfDay = t.utc.secondOfDay ∧ u.utc.nano = t.utc.nano) ∧
      s.utc.date.day = min r.utc.date.day u.utc.date.day ∧
      (t.utc.date.day ≤ 28 ∨ r.utc.date.day = t.utc.date.day → s = u)) ∧
    ∀ n, (t.plus? n .quarters = t.plus? (3 * n) .months ∧
      t.plus? n .years = t.plus? (12 * n) .months) ∧
      t.plusWithin? n .quarters = t.plusWithin? (3 * n) .months ∧
      t.plusWithin? n .years = t.plusWithin? (12 * n) .months := by
  have hwithin := plusWithin?_eq_plus? (hz ▸ Zone.utc_regular.wellSpaced) hc hn
  refine ⟨fun a b r s u ha hb hab ↦ ?_, fun n ↦ ⟨⟨rfl, rfl⟩, ?_, ?_⟩⟩
  · have hmonths : CalendarUnit.months ∈ CalendarUnit.uneven := by decide
    obtain ⟨first, hfirst, rfl⟩ := exists_date_of_utc_plus? hz hmonths ha
    obtain ⟨second, hsecond, rfl⟩ := exists_date_of_utc_plus? rfl hmonths hb
    obtain ⟨whole, hwhole, rfl⟩ := exists_date_of_utc_plus? hz hmonths hab
    simp only [Reading.date_onDate] at hsecond ⊢
    have htime := Reading.secondOfDay_onDate t.utc
    have htime' := (Reading.secondOfDay_onDate (t.utc.onDate first) second).trans (htime first)
    obtain ⟨hindex, hday⟩ := Date.addMonths?_addMonths? hfirst hsecond hwhole
    have hyear := Date.monthIndex_ediv second
    have hmonth := Date.monthIndex_emod second
    rw [hindex, Date.monthIndex_ediv] at hyear
    rw [hindex, Date.monthIndex_emod] at hmonth
    refine ⟨⟨hyear.symm, hmonth.symm⟩, ⟨htime', rfl⟩, ⟨htime whole, rfl⟩, hday, fun hkept ↦ ?_⟩
    have hfirst_day : first.day = t.utc.date.day := hkept.elim (Date.day_addMonths?_of_le hfirst) id
    have hle : whole.day ≤ t.utc.date.day := Date.day_of_inMonth? hwhole ▸ Int.min_le_left _ _
    obtain rfl : second = whole := Date.eq_of_monthIndex_eq hindex (by omega)
    rw [Reading.onDate, htime]
    rfl
  · rw [hwithin, hwithin]
    rfl
  · rw [hwithin, hwithin]
    rfl

theorem months_by_way_of_february :
    let t : ZonedTime := ⟨.utc, .ofDate (.ofYmd 2024 1 31) 43200 0⟩
    let r : ZonedTime := ⟨.utc, .ofDate (.ofYmd 2024 2 29) 43200 0⟩
    let s : ZonedTime := ⟨.utc, .ofDate (.ofYmd 2024 3 29) 43200 0⟩
    let u : ZonedTime := ⟨.utc, .ofDate (.ofYmd 2024 3 31) 43200 0⟩
    t.plus? 1 .months = some r ∧ r.plus? 1 .months = some s ∧ t.plus? 2 .months = some u ∧
      s.utc.date.day = min r.utc.date.day u.utc.date.day ∧
      t.plusWithin? (-5) .years = t.plusWithin? (-60) .months := by
  intro t r s u
  have hr : t.plus? 1 .months = some r := by decide
  have hs : r.plus? 1 .months = some s := by decide
  have hu : t.plus? (1 + 1) .months = some u := by decide
  obtain ⟨hcompose, hsame⟩ := @month_steps_compose t rfl (by decide) (by decide)
  obtain ⟨-, -, -, hday, -⟩ := hcompose 1 1 r s u hr hs hu
  exact ⟨hr, hs, hu, hday, (hsame (-5)).2.2⟩

/-- A step of week-based years leads to the year so many on. It keeps the weekday, the time of day
and the week, up to the 52 or 53 weeks of that year, and as many week-based years are counted. A
step back leads to the instant itself just if the week was kept. -/
theorem week_date_kept (hz : t.zone = .utc) (h : t.plus? n .weekBasedYears = some r) :
    r.utc.date.weekYear = t.utc.date.weekYear + n ∧ r.utc.date.weekday = t.utc.date.weekday ∧
      (r.utc.secondOfDay = t.utc.secondOfDay ∧ r.utc.nano = t.utc.nano) ∧
      r.utc.date.week = min t.utc.date.week (Date.weeksIn (t.utc.date.weekYear + n)) ∧
      (∀ year, (Date.weeksIn year = 52 ∨ Date.weeksIn year = 53) ∧
        (Date.weekYearStart (year + 1)).epochDay =
        (Date.weekYearStart year).epochDay + 7 * Date.weeksIn year) ∧
      t.unitsUntil r .weekBasedYears = n ∧
      ∀ back, r.plus? (-n) .weekBasedYears = some back →
      (back = t ↔ r.utc.date.week = t.utc.date.week) := by
  have hweekBased : CalendarUnit.weekBasedYears ∈ CalendarUnit.uneven := by decide
  obtain ⟨date, hdate, rfl⟩ := exists_date_of_utc_plus? hz hweekBased h
  obtain ⟨zone, reading⟩ := t
  obtain rfl : zone = .utc := hz
  simp only [Reading.date_onDate] at hdate ⊢
  obtain ⟨hyear, hweek, hweekday⟩ := Date.weekDate_of_addWeekYears? hdate
  refine ⟨hyear, hweekday, ⟨Reading.secondOfDay_onDate _ _, rfl⟩, hweek,
    fun year ↦ ⟨?_, Date.weekYearStart_succ year⟩,
    ?_, fun back hback ↦ ?_⟩
  · have hbounds := Date.weeksIn_bounds year
    omega
  · change (ZonedTime.wall ⟨.utc, _⟩).date.weekYear -
      (ZonedTime.wall ⟨.utc, reading⟩).date.weekYear = n
    rw [utc_wall, utc_wall, Reading.date_onDate, hyear]
    omega
  · obtain ⟨start, hstart, rfl⟩ := exists_date_of_utc_plus? rfl hweekBased hback
    simp only [Reading.date_onDate] at hstart
    obtain ⟨hyear', hweek', hweekday'⟩ := Date.weekDate_of_addWeekYears? hstart
    have hsame : date.weekYear + -n = reading.date.weekYear := by omega
    rw [hsame] at hyear' hweek'
    constructor
    · intro he
      have hstart_eq : start = reading.date := by
        rw [← Reading.date_onDate (reading.onDate date) start]
        exact congrArg (fun t ↦ t.utc.date) he
      rw [hstart_eq] at hweek'
      omega
    · intro hkept
      have hweeks := Date.week_le_weeksIn reading.date
      obtain rfl : start = reading.date :=
        Date.eq_of_weekDate_eq hyear' (by omega) (hweekday'.trans hweekday)
      rw [Reading.onDate, Reading.secondOfDay_onDate]
      exact congrArg (mk .utc) (Reading.ofDate_date reading)

/-- The last day of 2020 lies in week 53. A week-based year on it is in week 52, from which a step
back leads to week 52 of 2020. -/
theorem week_53_lost :
    let t : ZonedTime := ⟨.utc, .ofDate (.ofYmd 2020 12 31) 0 0⟩
    let r : ZonedTime := ⟨.utc, .ofDate (.ofYmd 2021 12 30) 0 0⟩
    let back : ZonedTime := ⟨.utc, .ofDate (.ofYmd 2020 12 24) 0 0⟩
    t.plus? 1 .weekBasedYears = some r ∧ r.utc.date.week = 52 ∧ t.unitsUntil r .weekBasedYears = 1 ∧
      r.plus? (-1) .weekBasedYears = some back ∧ back ≠ t := by
  intro t r back
  have hr : t.plus? 1 .weekBasedYears = some r := by decide
  have hback : r.plus? (-1) .weekBasedYears = some back := by decide
  obtain ⟨-, -, -, hweek, -, hcount, hundone⟩ := week_date_kept rfl hr
  have hlost : ¬ r.utc.date.week = t.utc.date.week := by decide
  exact ⟨hr, hweek.trans (by decide), hcount, hback, mt (hundone back hback).1 hlost⟩

end ZonedTime

end Almanac
