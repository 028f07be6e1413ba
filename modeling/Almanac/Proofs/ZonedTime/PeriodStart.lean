import Almanac.Proofs.ZonedTime.Distance
import Almanac.Proofs.ZonedTime.Rounding
import Mathlib.Logic.Relation

namespace Almanac

namespace CalendarUnit

/-- The units that cut time into periods without gaps, each period with a number and a start. -/
def periodic : List CalendarUnit := .millis :: wholeSecond

def wholes : CalendarUnit → List CalendarUnit
  | millis => [seconds]
  | seconds => [minutes]
  | minutes => [hours]
  | hours => [halfDays]
  | halfDays => [days]
  | days => [weeks, months]
  | weeks => [weekBasedYears]
  | months => [quarters]
  | quarters => [years]
  | _ => []

def Divides : CalendarUnit → CalendarUnit → Prop :=
  Relation.ReflTransGen fun fine coarse ↦ coarse ∈ fine.wholes

end CalendarUnit

namespace Date

variable {a b date : Date} {number amount : Int}

theorem weekYear_eq_of_week_eq (h : (a.epochDay + 3) / 7 = (b.epochDay + 3) / 7) :
    a.weekYear = b.weekYear := by
  have hthursday : a.thursday = b.thursday := by
    apply eq_of_epochDay_eq
    rw [thursday_epochDay, thursday_epochDay]
    omega
  exact congrArg year hthursday

@[simp] theorem week_weekYearStart (weekYear : Int) : (weekYearStart weekYear).week = 1 := by
  have hday := epochDay_eq_weekYearStart (weekYearStart weekYear)
  have hweekday : (weekYearStart weekYear).weekday = 1 := weekday_weekStart _
  rw [weekYear_weekYearStart] at hday
  omega

theorem eq_weekYearStart_of_addWeekYears?
    (h : (weekYearStart number).addWeekYears? amount = some date) :
    date = weekYearStart (number + amount) := by
  obtain ⟨hyear, hweek, hweekday⟩ := weekDate_of_addWeekYears? h
  have hweeks := weeksIn_bounds (number + amount)
  have hmonday (weekYear : Int) : (weekYearStart weekYear).weekday = 1 := weekday_weekStart _
  rw [weekYear_weekYearStart] at hyear hweek
  apply eq_of_weekDate_eq
  · simp [hyear]
  · rw [hweek, week_weekYearStart, week_weekYearStart]
    omega
  · rw [hweekday, hmonday, hmonday]

end Date

namespace Reading

variable {a b r s : Reading} {unit fine coarse : CalendarUnit} {number : Int}

/-- A period of the next coarser unit holds the whole of each period that it meets. -/
theorem period_eq_of_mem_wholes (hw : coarse ∈ fine.wholes) (ha : ¬ a.IsLeapSecond)
    (hb : ¬ b.IsLeapSecond) (h : a.period fine = b.period fine) :
    a.period coarse = b.period coarse := by
  have hnano := nano_lt ha
  have hnano' := nano_lt hb
  cases fine with
  | millis | seconds | minutes | hours | halfDays | quarters =>
    obtain rfl := List.mem_singleton.1 hw
    simp only [period, date, secondsPerDay] at h ⊢
    omega
  | days =>
    have hdate : a.date = b.date := Date.eq_of_epochDay_eq h
    rcases List.mem_pair.1 hw with rfl | rfl
    · simp only [period, hdate]
    · simp only [period, hdate]
  | weeks =>
    obtain rfl := List.mem_singleton.1 hw
    exact Date.weekYear_eq_of_week_eq h
  | months =>
    obtain rfl := List.mem_singleton.1 hw
    exact congrArg (· / 3) h
  | nanos | years | weekBasedYears | eras => exact absurd hw List.not_mem_nil

theorem period_eq_of_divides (hd : fine.Divides coarse) (ha : ¬ a.IsLeapSecond)
    (hb : ¬ b.IsLeapSecond) (h : a.period fine = b.period fine) :
    a.period coarse = b.period coarse := by
  induction hd with
  | refl => exact h
  | tail _ hw ih => exact period_eq_of_mem_wholes hw ha hb ih

theorem start_le_iff (hu : unit ∈ CalendarUnit.periodic) (hl : ¬ r.IsLeapSecond) :
    ofPeriod number unit ≤ r ↔ number ≤ r.period unit := by
  rcases List.mem_cons.1 hu with rfl | hwhole
  · have hnano := nano_lt hl
    rw [le_def]
    simp only [ofPeriod, period]
    omega
  · exact ofPeriod_le_iff hwhole

theorem period_start (hu : unit ∈ CalendarUnit.periodic) (number : Int) :
    (ofPeriod number unit).period unit = number := by
  rcases List.mem_cons.1 hu with rfl | hwhole
  · simp only [ofPeriod, period]
    omega
  · exact period_ofPeriod number hwhole

end Reading

namespace ZonedTime

variable {t r s : ZonedTime} {unit : CalendarUnit} {number amount : Int}

theorem eq_start_of_utc_floor? (hz : t.zone = .utc) (hc : t.utc.InCalendar)
    (hl : ¬ t.utc.IsLeapSecond)
    (h : t.floor? unit = some r) : r = ⟨.utc, .ofPeriod (t.utc.period unit) unit⟩ := by
  obtain ⟨zone, reading⟩ := t
  obtain rfl : zone = .utc := hz
  rw [utc_floor? (fun _ ↦ hl) hc] at h
  exact (eq_of_covered? h).2

theorem utc_floor?_congr (hz : t.zone = .utc) (hz' : s.zone = .utc) (hc : t.utc.InCalendar)
    (hc' : s.utc.InCalendar) (hl : ¬ t.utc.IsLeapSecond) (hl' : ¬ s.utc.IsLeapSecond)
    (h : t.utc.period unit = s.utc.period unit) :
    t.floor? unit = s.floor? unit := by
  obtain ⟨zone, reading⟩ := t
  obtain ⟨zone', reading'⟩ := s
  obtain rfl : zone = .utc := hz
  obtain rfl : zone' = .utc := hz'
  have h : reading.period unit = reading'.period unit := h
  rw [utc_floor? (fun _ ↦ hl) hc, utc_floor? (fun _ ↦ hl') hc', h]

/-- Units added to the start of a period lead to the start of another. -/
theorem eq_start_of_utc_plus? (hu : unit ∈ CalendarUnit.periodic)
    (h : (⟨.utc, .ofPeriod number unit⟩ : ZonedTime).plus? amount unit = some r) :
    r = ⟨.utc, .ofPeriod (number + amount) unit⟩ := by
  by_cases hyear : unit = .weekBasedYears
  · subst hyear
    obtain ⟨date, hdate, hr⟩ := Option.bind_eq_some_iff.1 h
    rw [utc_wall, Reading.ofPeriod, Reading.date_midnight] at hdate
    rw [utc_onDate?, Date.eq_weekYearStart_of_addWeekYears? hdate, Reading.ofPeriod,
      Reading.secondOfDay_midnight] at hr
    exact (eq_of_covered? hr).2
  · have hregular : unit ∈ CalendarUnit.regular := by
      revert hu hyear
      cases unit <;> decide
    rw [utc_plus?_ofPeriod hregular] at h
    exact (eq_of_covered? h).2

/-- In UTC an instant is floored to the start of its period: the start has been reached, the next
one has not, and all instants in between have the same floor. Later instants have no earlier floors.
Flooring to a part of a coarser period first leads to the same coarser floor. -/
theorem floor_to_last_start (hz : t.zone = .utc) (hc : t.utc.InCalendar) (hl : ¬ t.utc.IsLeapSecond)
    (hu : unit ∈ CalendarUnit.periodic) (hr : t.floor? unit = some r) :
    r.utc ≤ t.utc ∧
    (∀ next, r.plus? 1 unit = some next → t.utc < next.utc ∧
      ∀ s : ZonedTime, s.zone = .utc → s.utc.InCalendar → ¬ s.utc.IsLeapSecond →
        r.utc ≤ s.utc → s.utc < next.utc → s.floor? unit = some r) ∧
    (∀ later final : ZonedTime, later.zone = .utc → later.utc.InCalendar →
      ¬ later.utc.IsLeapSecond → t.utc ≤ later.utc → later.floor? unit = some final →
        r.utc ≤ final.utc) ∧
    ∀ coarse, unit.Divides coarse → r.floor? coarse = t.floor? coarse := by
  have hstart := eq_start_of_utc_floor? hz hc hl hr
  subst hstart
  have hleap : ¬ (Reading.ofPeriod (t.utc.period unit) unit).IsLeapSecond :=
    Reading.not_isLeapSecond_ofPeriod _ unit
  have hperiod := Reading.period_start hu (t.utc.period unit)
  refine ⟨(Reading.start_le_iff hu hl).2 (Int.le_refl _), ?_, ?_, ?_⟩
  · intro next hnext
    have hnext := eq_start_of_utc_plus? hu hnext
    subst hnext
    refine ⟨?_, ?_⟩
    · rw [Reading.lt_iff_not_le, Reading.start_le_iff hu hl]
      omega
    · intro s hz' hc' hl' hfrom huntil
      rw [Reading.start_le_iff hu hl'] at hfrom
      rw [Reading.lt_iff_not_le, Reading.start_le_iff hu hl'] at huntil
      rw [← hr]
      exact utc_floor?_congr hz' hz hc' hc hl' hl (by omega)
  · intro later final hz' hc' hl' hle hfinal
    have hfinal := eq_start_of_utc_floor? hz' hc' hl' hfinal
    subst hfinal
    have hlater := Reading.period_le hl hle unit
    rw [Reading.start_le_iff hu (Reading.not_isLeapSecond_ofPeriod _ unit), Reading.period_start hu]
    exact hlater
  · intro coarse hd
    have hcovered : (Reading.ofPeriod (t.utc.period unit) unit).InCalendar := by
      obtain ⟨zone, reading⟩ := t
      obtain rfl : zone = .utc := hz
      rw [utc_floor? (fun _ ↦ hl) hc] at hr
      exact (eq_of_covered? hr).1
    exact utc_floor?_congr rfl hz hcovered hc hleap hl
      (Reading.period_eq_of_divides hd hleap hl hperiod)

theorem floor_of_new_year :
    let noon : ZonedTime := ⟨.utc, .ofDate (.ofYmd 2021 1 1) 43200 0⟩
    let first : ZonedTime := ⟨.utc, .ofDate (.ofYmd 2019 12 30) 0 0⟩
    let monday : ZonedTime := ⟨.utc, .ofDate (.ofYmd 2020 12 28) 0 0⟩
    let next : ZonedTime := ⟨.utc, .ofDate (.ofYmd 2021 1 4) 0 0⟩
    noon.floor? .weekBasedYears = some first ∧ first.plus? 1 .weekBasedYears = some next ∧
    first.utc ≤ noon.utc ∧ noon.utc < next.utc ∧ noon.floor? .weeks = some monday ∧
    monday.floor? .weekBasedYears = some first := by
  intro noon first monday next
  have hyear : noon.floor? .weekBasedYears = some first := by decide
  have hweek : noon.floor? .weeks = some monday := by decide
  have hnext : first.plus? 1 .weekBasedYears = some next := by decide
  obtain ⟨hreached, hbefore, -, -⟩ :=
    @floor_to_last_start noon first .weekBasedYears rfl (by decide) (by decide) (by decide) hyear
  obtain ⟨-, -, -, hcoarse⟩ :=
    @floor_to_last_start noon monday .weeks rfl (by decide) (by decide) (by decide) hweek
  have hsame := hcoarse .weekBasedYears (.single List.mem_cons_self)
  exact ⟨hyear, hnext, hreached, (hbefore next hnext).1, hweek, hsame.trans hyear⟩

end ZonedTime

end Almanac
