import Almanac.Proofs.ZonedTime.UnevenStep

namespace Almanac

namespace Date

variable {d date : Date} {n : Int}

def LosesLeapDay (d : Date) : Prop := d.month = 2 ∧ d.day = 29 ∧ ¬ IsLeap (1 - d.year)

instance (d : Date) : Decidable d.LosesLeapDay :=
  inferInstanceAs (Decidable (d.month = 2 ∧ d.day = 29 ∧ ¬ IsLeap (1 - d.year)))

def counterpartDay (d : Date) : Int := if d.LosesLeapDay then 28 else d.day

/-- The same day of the same year of the other era, or February 28 where there is no 29, in or out
of the calendar. -/
def counterpart (d : Date) : Date := ofYmd (1 - d.year) d.month d.counterpartDay

theorem isLeap_of_leapDay (hm : d.month = 2) (hd : d.day = 29) : IsLeap d.year := by
  have hday := d.day_bounds.2
  rw [hm, hd, monthLength_two] at hday
  by_contra hleap
  rw [if_neg hleap] at hday
  omega

theorem counterpartDay_bounds (d : Date) :
    1 ≤ d.counterpartDay ∧ d.counterpartDay ≤ monthLength (1 - d.year) d.month := by
  have hm := month_bounds d
  have hd := day_bounds d
  unfold counterpartDay
  split
  · rename_i hlost
    rw [hlost.1, monthLength_two, if_neg hlost.2.2]
    decide
  · rename_i hkept
    refine ⟨hd.1, ?_⟩
    by_cases hfebruary : d.month = 2
    · have hday := hd.2
      rw [hfebruary, monthLength_two] at hday ⊢
      by_cases hleap : IsLeap (1 - d.year)
      · rw [if_pos hleap]
        split at hday <;> omega
      · have hne : d.day ≠ 29 := fun hlast ↦ hkept ⟨hfebruary, hlast, hleap⟩
        rw [if_neg hleap]
        split at hday <;> omega
    · rw [monthLength_eq_of_ne_two hm.1 hm.2.1 hfebruary (1 - d.year) d.year]
      exact hd.2

@[simp] theorem year_counterpart (d : Date) : d.counterpart.year = 1 - d.year :=
  year_ofYmd (month_bounds d).1 (month_bounds d).2.1 d.counterpartDay_bounds.1
    d.counterpartDay_bounds.2

@[simp] theorem month_counterpart (d : Date) : d.counterpart.month = d.month :=
  month_ofYmd (month_bounds d).1 (month_bounds d).2.1 d.counterpartDay_bounds.1
    d.counterpartDay_bounds.2

@[simp] theorem day_counterpart (d : Date) : d.counterpart.day = d.counterpartDay :=
  day_ofYmd (month_bounds d).1 (month_bounds d).2.1 d.counterpartDay_bounds.1
    d.counterpartDay_bounds.2

@[simp] theorem era_counterpart (d : Date) : d.counterpart.era = 1 - d.era := by
  unfold era
  rw [year_counterpart]
  split <;> split <;> omega

@[simp] theorem yearOfEra_counterpart (d : Date) : d.counterpart.yearOfEra = d.yearOfEra := by
  unfold yearOfEra
  rw [year_counterpart]
  split <;> split <;> omega

theorem counterpart_inCalendar_iff (hc : d.InCalendar) :
    d.counterpart.InCalendar ↔ d.yearOfEra ≤ maxYear := by
  have hyear := inCalendar_iff_year.1 hc
  have hera := yearOfEra_eq d
  rw [inCalendar_iff_year, year_counterpart]
  unfold minYear maxYear at *
  omega

/-- The day before is tried for February 29 alone. Where it is tried because the year lies beyond
the calendar, it lies there as well. -/
theorem ofYmd?_or_dayBefore (d : Date) :
    (ofYmd? (1 - d.year) d.month d.day).or (ofYmd? (1 - d.year) d.month (d.day - 1)) =
    d.counterpart.covered? := by
  have hm := month_bounds d
  have hcounterpart := ofYmd?_eq hm.1 hm.2.1 d.counterpartDay_bounds.1 d.counterpartDay_bounds.2
  by_cases hlost : d.LosesLeapDay
  · have hday : d.counterpartDay = d.day - 1 := by
      rw [counterpartDay, if_pos hlost, hlost.2.1]
      decide
    have hnone : ofYmd? (1 - d.year) d.month d.day = none := by
      refine if_neg fun hvalid ↦ ?_
      rw [hlost.1, hlost.2.1, monthLength_two, if_neg hlost.2.2] at hvalid
      omega
    rw [hnone, Option.none_or, ← hday, hcounterpart]
    rfl
  · have hday : d.counterpartDay = d.day := if_neg hlost
    by_cases hyear : minYear ≤ 1 - d.year ∧ 1 - d.year ≤ maxYear
    · have hcovered : d.counterpart.covered? = some d.counterpart :=
        covered?_of_inCalendar (inCalendar_iff_year.2 (d.year_counterpart.symm ▸ hyear))
      rw [← hday, hcounterpart]
      change d.counterpart.covered?.or _ = _
      rw [hcovered, Option.some_or]
    · have hnone := ofYmd?_eq_none (show 1 - d.year < minYear ∨
        maxYear < 1 - d.year by omega) d.month
      rw [← hday, hnone, hnone, Option.none_or, ← hnone d.counterpartDay, hcounterpart]
      rfl

theorem addEras?_eq_counterpart (h : d.era + n = 1 - d.era) :
    d.addEras? n = d.counterpart.covered? := by
  have hera := era_eq d
  have hyears := yearOfEra_eq d
  have hyear : (if d.era + n = 1 then d.yearOfEra else 1 - d.yearOfEra) = 1 - d.year := by
    split <;> omega
  rw [← ofYmd?_or_dayBefore, ← hyear]
  exact if_pos (by omega)

theorem addEras?_zero (hc : d.InCalendar) : d.addEras? 0 = some d := by
  have hera := era_eq d
  have hyears := yearOfEra_eq d
  have hyear : (if d.era + 0 = 1 then d.yearOfEra else 1 - d.yearOfEra) = d.year := by
    split <;> omega
  have hown : (ofYmd? d.year d.month d.day).or (ofYmd? d.year d.month (d.day - 1)) = some d := by
    rw [ofYmd?_year_month_day hc, Option.some_or]
  rw [← hown, ← hyear]
  exact if_pos (by omega)

theorem addEras?_eq_none (h₀ : n ≠ 0) (h : d.era + n ≠ 1 - d.era) : d.addEras? n = none := by
  have hera := era_eq d
  exact if_neg (by omega)

theorem inCalendar_of_addEras? (h : d.addEras? n = some date) : date.InCalendar := by
  unfold addEras? at h
  simp only at h
  split at h
  · rcases Option.or_eq_some_iff.1 h with hdate | ⟨-, hdate⟩
    · exact inCalendar_of_ofYmd? hdate
    · exact inCalendar_of_ofYmd? hdate
  · cases h

/-- The counterpart never loses a leap day, so that its own counterpart is the day itself, or
February 28 of the year if the day was lost. -/
theorem counterpart_counterpart (d : Date) :
    d.counterpart.counterpart = if d.LosesLeapDay then ⟨d.epochDay - 1⟩ else d := by
  have hkept : ¬ d.counterpart.LosesLeapDay := by
    rintro ⟨hmonth, hday, hleap⟩
    rw [month_counterpart] at hmonth
    rw [day_counterpart, counterpartDay] at hday
    rw [year_counterpart, show 1 - (1 - d.year) = d.year by omega] at hleap
    split at hday
    · omega
    · exact hleap (isLeap_of_leapDay hmonth hday)
  have hself := congrArg epochDay (ofYmd_year_month_day d)
  rw [counterpart, counterpartDay, if_neg hkept, year_counterpart, month_counterpart,
    day_counterpart,
    show 1 - (1 - d.year) = d.year by omega, counterpartDay]
  split
  · rename_i hlost
    rw [ofYmd_epochDay, hlost.2.1] at hself
    apply eq_of_epochDay_eq
    rw [ofYmd_epochDay]
    simp only
    omega
  · exact ofYmd_year_month_day d

end Date

namespace ZonedTime

variable {t r : ZonedTime} {n : Int}

theorem utc_plus?_eras (hz : t.zone = .utc) (n : Int) :
    t.plus? n .eras = (t.utc.date.addEras? n).map fun date ↦ ⟨.utc, t.utc.onDate date⟩ := by
  obtain ⟨zone, reading⟩ := t
  obtain rfl : zone = .utc := hz
  change ((ZonedTime.wall ⟨.utc, reading⟩).date.addEras? n).bind (onDate? ⟨.utc, reading⟩) = _
  rw [utc_wall]
  cases hdate : reading.date.addEras? n with
  | none => rfl
  | some date =>
    rw [Option.bind_some, utc_onDate?]
    exact Zone.covered?_eq (Reading.onDate_inCalendar_iff.2 (Date.inCalendar_of_addEras? hdate))

theorem utc_plus?_no_eras (hz : t.zone = .utc) (hc : t.utc.InCalendar) :
    t.plus? 0 .eras = some t := by
  simp [utc_plus?_eras hz, Date.addEras?_zero hc, ← hz]

theorem utc_plus?_other_era (hz : t.zone = .utc) (hc : t.utc.InCalendar)
    (h : t.utc.date.era + n = 1 - t.utc.date.era) (hyear : t.utc.date.yearOfEra ≤ Date.maxYear) :
    t.plus? n .eras = some ⟨.utc, t.utc.onDate t.utc.date.counterpart⟩ := by
  rw [utc_plus?_eras hz, Date.addEras?_eq_counterpart h,
    Date.covered?_of_inCalendar ((Date.counterpart_inCalendar_iff hc).2 hyear), Option.map_some]

/-- All that a step of some eras can do. -/
theorem utc_plus?_eras_cases (hz : t.zone = .utc) (hc : t.utc.InCalendar) (h₀ : n ≠ 0)
    (h : t.plus? n .eras = some r) :
    t.utc.date.era + n = 1 - t.utc.date.era ∧ t.utc.date.yearOfEra ≤ Date.maxYear ∧
      r = ⟨.utc, t.utc.onDate t.utc.date.counterpart⟩ := by
  rw [utc_plus?_eras hz] at h
  obtain ⟨date, hdate, rfl⟩ := Option.map_eq_some_iff.1 h
  by_cases hother : t.utc.date.era + n = 1 - t.utc.date.era
  · rw [Date.addEras?_eq_counterpart hother] at hdate
    obtain ⟨hcovered, rfl⟩ := Date.inCalendar_of_covered? hdate
    exact ⟨hother, (Date.counterpart_inCalendar_iff hc).1 hcovered, rfl⟩
  · rw [Date.addEras?_eq_none h₀ hother] at hdate
    cases hdate

theorem utc_unitsUntil_eras (hz : t.zone = .utc) (reading : Reading) :
    t.unitsUntil ⟨.utc, reading⟩ .eras = reading.date.era - t.utc.date.era := by
  obtain ⟨zone, start⟩ := t
  obtain rfl : zone = .utc := hz
  change (ZonedTime.wall ⟨.utc, reading⟩).date.era - (ZonedTime.wall ⟨.utc, start⟩).date.era = _
  simp

/-- A step of eras, with its limits or without, leads to an instant if it is of no eras or goes to
the other era and that year of it is in the calendar. No eras lead back to the instant itself. The
other era is reached in the same year, month and time of day and on the same day, but on February 28
from a February 29 that the year reached lacks. As many eras are counted, and the way back leads to
the instant, or to the day before if the day was lost. -/
theorem era_steps_flip (hz : t.zone = .utc) (hc : t.utc.InCalendar) :
    (∀ n, t.plusWithin? n .eras = t.plus? n .eras ∧ ((∃ r, t.plus? n .eras = some r) ↔
      n = 0 ∨ t.utc.date.era + n = 1 - t.utc.date.era ∧ t.utc.date.yearOfEra ≤ Date.maxYear)) ∧
    t.plus? 0 .eras = some t ∧
    ∀ n r, n ≠ 0 → t.plus? n .eras = some r →
      r.zone = t.zone ∧
      (r.utc.date.era = 1 - t.utc.date.era ∧ r.utc.date.yearOfEra = t.utc.date.yearOfEra) ∧
      r.utc.date.month = t.utc.date.month ∧
      (r.utc.secondOfDay = t.utc.secondOfDay ∧ r.utc.nano = t.utc.nano) ∧
      r.utc.date.day =
        (if t.utc.date.month = 2 ∧ t.utc.date.day = 29 ∧ ¬ Date.IsLeap r.utc.date.year then 28
        else t.utc.date.day) ∧
      t.unitsUntil r .eras = n ∧
      r.plus? (-n) .eras =
        some (if r.utc.date.day = t.utc.date.day then t
          else ⟨.utc, t.utc.onDate ⟨t.utc.date.epochDay - 1⟩⟩) := by
  refine ⟨fun n ↦ ⟨congrArg (Option.bind · t.onDate?) (Date.addErasWithin?_eq _ n), ?_, ?_⟩,
    utc_plus?_no_eras hz hc, fun n r h₀ hr ↦ ?_⟩
  · rintro ⟨r, hr⟩
    by_cases h₀ : n = 0
    · exact .inl h₀
    · obtain ⟨hother, hyear, -⟩ := utc_plus?_eras_cases hz hc h₀ hr
      exact .inr ⟨hother, hyear⟩
  · rintro (rfl | ⟨hother, hyear⟩)
    · exact ⟨t, utc_plus?_no_eras hz hc⟩
    · exact ⟨_, utc_plus?_other_era hz hc hother hyear⟩
  · obtain ⟨hother, hyear, rfl⟩ := utc_plus?_eras_cases hz hc h₀ hr
    have hdate := Reading.date_onDate t.utc t.utc.date.counterpart
    have hera := t.utc.date.era_counterpart
    have hcount : t.unitsUntil ⟨.utc, t.utc.onDate t.utc.date.counterpart⟩ .eras = n := by
      rw [utc_unitsUntil_eras hz, hdate, hera]
      omega
    have hcovered : (t.utc.onDate t.utc.date.counterpart).InCalendar :=
      Reading.onDate_inCalendar_iff.2 ((Date.counterpart_inCalendar_iff hc).2 hyear)
    have hback := @utc_plus?_other_era ⟨.utc, t.utc.onDate t.utc.date.counterpart⟩ (-n) rfl hcovered
    simp only [hdate] at hback ⊢
    refine ⟨hz.symm, ⟨hera, t.utc.date.yearOfEra_counterpart⟩, t.utc.date.month_counterpart,
      ⟨Reading.secondOfDay_onDate t.utc _, rfl⟩, ?_, hcount, ?_⟩
    · rw [Date.year_counterpart]
      exact t.utc.date.day_counterpart
    · rw [hback (by omega) (by rwa [Date.yearOfEra_counterpart]), Reading.onDate_onDate,
        Date.counterpart_counterpart, Date.day_counterpart, Date.counterpartDay]
      split
      · rename_i hlost
        rw [if_neg (by rw [hlost.2.1]; decide)]
      · simp [← hz]

/-- February 29 of the year 2024 lies in a leap year, but 2024 before Christ is none. The way there
leads to February 28, and so does the way back. The first year of the calendar has no
counterpart. -/
theorem leap_day_before_christ :
    let t : ZonedTime := ⟨.utc, .ofDate (.ofYmd 2024 2 29) 86399 1500000000⟩
    let r : ZonedTime := ⟨.utc, .ofDate (.ofYmd (-2023) 2 28) 86399 1500000000⟩
    let back : ZonedTime := ⟨.utc, .ofDate (.ofYmd 2024 2 28) 86399 1500000000⟩
    let first : ZonedTime := ⟨.utc, Reading.first⟩
    t.plus? (-1) .eras = some r ∧ r.utc.date.yearOfEra = 2024 ∧ t.unitsUntil r .eras = -1 ∧
      r.plus? 1 .eras = some back ∧ first.utc.date.era = 0 ∧
      ¬ ∃ r, first.plus? 1 .eras = some r := by
  intro t r back first
  have hr : t.plus? (-1) .eras = some r := by decide
  obtain ⟨-, -, hflipped⟩ := @era_steps_flip t rfl (by decide)
  obtain ⟨hexists, -⟩ := @era_steps_flip first rfl (by decide)
  obtain ⟨-, ⟨-, hyear⟩, -, -, -, hcount, hback⟩ := hflipped (-1) r (by decide) hr
  have hlost : ¬ r.utc.date.day = t.utc.date.day := by decide
  rw [if_neg hlost] at hback
  refine ⟨hr, hyear.trans (by decide), hcount, hback.trans (by decide), by decide, fun h ↦ ?_⟩
  rcases (hexists 1).2.1 h with hzero | ⟨-, hcovered⟩
  · cases hzero
  · exact absurd hcovered (by decide)

end ZonedTime

end Almanac
