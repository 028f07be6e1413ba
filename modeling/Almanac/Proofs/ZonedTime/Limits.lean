import Almanac.Count
import Almanac.Proofs.ZonedTime.DateStep

namespace Almanac

namespace Count

variable {α : Type} {low high n : Int} {f : Int → Option α}

def within? (low high n : Int) : Option Int := if low ≤ n ∧ n ≤ high then some n else none

def int64? (n : Int) : Option Int := within? least greatest n

def int32? (n : Int) : Option Int := within? (-2147483648) 2147483647 n

def unsigned32? (n : Int) : Option Int := within? 0 4294967295 n

def lapse? (nanos : Int) : Option Int := within? (-(greatest * 1000000)) (greatest * 1000000) nanos

def lapseOfSeconds? (seconds : Int) : Option Int :=
  do lapse? ((← int64? seconds) * Reading.nanosPerSecond)

theorem within?_bind (h : n < low ∨ high < n → f n = none) : (within? low high n).bind f = f n := by
  unfold within?
  split
  · rfl
  · rename_i hout
    exact (h (by omega)).symm

theorem lapseOfSeconds?_bind (seconds : Int)
    (h : ∀ lapse, lapse < -(greatest * 1000000) ∨ greatest * 1000000 < lapse → f lapse = none) :
    (lapseOfSeconds? seconds).bind f = f (seconds * Reading.nanosPerSecond) := by
  have hlapse (n : Int) : (lapse? (n * Reading.nanosPerSecond)).bind f =
      f (n * Reading.nanosPerSecond) :=
    within?_bind (h _)
  change ((int64? seconds).bind fun n ↦ lapse? (n * Reading.nanosPerSecond)).bind f = _
  rw [Option.bind_assoc, ← hlapse]
  refine within?_bind fun hout ↦ ?_
  rw [hlapse]
  apply h
  unfold least greatest at hout
  unfold greatest Reading.nanosPerSecond
  omega

end Count

namespace Date

variable {d date : Date} {amount : Int}

def addMonthsWithin? (d : Date) (amount : Int) : Option Date := do
  let months ← Count.unsigned32? amount.natAbs
  d.addMonths? (if 0 ≤ amount then months else -months)

def addWeekYearsWithin? (d : Date) (amount : Int) : Option Date := do
  let _ ← Count.int32? (← Count.int64? (d.weekYear + amount))
  d.addWeekYears? amount

def addErasWithin? (d : Date) (amount : Int) : Option Date := do
  let _ ← Count.int64? (d.era + amount)
  d.addEras? amount

theorem addMonths?_eq_none (hc : d.NearCalendar) (h : amount < -4294967295 ∨ 4294967295 < amount) :
    d.addMonths? amount = none := by
  by_contra hne
  obtain ⟨date, hdate⟩ := Option.ne_none_iff_exists'.1 hne
  obtain ⟨hindex, hcovered⟩ := monthIndex_of_inMonth? hdate
  have hyear := inCalendar_iff_year.1 hcovered
  have hnear : minYear - 1 ≤ d.year ∧ d.year ≤ maxYear + 1 := hc
  have hto := monthIndex_ediv date
  have hfrom := monthIndex_ediv d
  unfold minYear maxYear at hyear hnear
  omega

theorem addMonthsWithin?_eq (hc : d.NearCalendar) (amount : Int) :
    d.addMonthsWithin? amount = d.addMonths? amount := by
  have hsigned : (if 0 ≤ amount then (amount.natAbs : Int) else -amount.natAbs) = amount := by
    split <;> omega
  have hout : (amount.natAbs : Int) < 0 ∨ 4294967295 < (amount.natAbs : Int) →
      d.addMonths? (if 0 ≤ amount then (amount.natAbs : Int) else -amount.natAbs) = none := by
    intro h
    rw [hsigned]
    exact addMonths?_eq_none hc (by omega)
  refine (Count.within?_bind hout).trans ?_
  rw [hsigned]

theorem addWeekYears?_eq_none (h : d.weekYear + amount < minYear ∨ maxYear < d.weekYear + amount) :
    d.addWeekYears? amount = none :=
  congrArg (Option.bind · _) (ofYmd?_eq_none h 12 28)

@[simp] theorem addWeekYearsWithin?_eq (d : Date) (amount : Int) :
    d.addWeekYearsWithin? amount = d.addWeekYears? amount := by
  have hyear (h : d.weekYear + amount < -2147483648 ∨ 2147483647 < d.weekYear + amount) :
      d.addWeekYears? amount = none := by
    apply addWeekYears?_eq_none
    unfold minYear maxYear
    omega
  have hwidth : (Count.int32? (d.weekYear + amount)).bind (fun _ ↦ d.addWeekYears? amount) =
      d.addWeekYears? amount :=
    Count.within?_bind hyear
  change (Count.int64? (d.weekYear + amount)).bind
    (fun n ↦ (Count.int32? n).bind fun _ ↦ d.addWeekYears? amount) = _
  refine (Count.within?_bind fun hout ↦ ?_).trans hwidth
  rw [hwidth]
  unfold Count.least Count.greatest at hout
  exact hyear (by omega)

@[simp] theorem addErasWithin?_eq (d : Date) (amount : Int) :
    d.addErasWithin? amount = d.addEras? amount := by
  refine Count.within?_bind fun hout ↦ ?_
  unfold Count.least Count.greatest at hout
  exact if_neg (by omega)

end Date

namespace Reading

variable {r : Reading}

theorem second_advance_near (hn : r.nano < 2000000000) (lapse : Int) :
    r.second + lapse / nanosPerSecond ≤ (r.advance lapse).second ∧
      (r.advance lapse).second ≤ r.second + lapse / nanosPerSecond + 2 := by
  have hrest := Int.mul_tdiv_add_tmod lapse nanosPerSecond
  have hless : lapse.tmod nanosPerSecond < nanosPerSecond := Int.tmod_lt_of_pos lapse (by decide)
  unfold advance
  split
  · rename_i hl
    unfold IsLeapSecond at hl
    simp only
    split
    · simp only [ofNanos, toNanos, nanosPerSecond] at hl ⊢
      omega
    · split
      · simp only [ofNanos, toNanos, nanosPerSecond] at hl ⊢
        omega
      · have hmore : -nanosPerSecond < lapse.tmod nanosPerSecond :=
          Int.lt_tmod_of_pos lapse (by decide)
        simp only [nanosPerSecond] at *
        omega
  · rename_i hl
    unfold IsLeapSecond at hl
    simp only [ofNanos, toNanos, nanosPerSecond] at hl ⊢
    omega

theorem covered?_advance_eq_none (hc : r.date.NearCalendar) (hn : r.nano < 2000000000) {lapse : Int}
    (h : lapse < -(Count.greatest * 1000000) ∨ Count.greatest * 1000000 < lapse) :
    (r.advance lapse).covered? = none := by
  have hnear := second_advance_near hn lapse
  have hbounds := hc.epochDay_bounds
  have hday : r.date.epochDay = r.second / 86400 := rfl
  unfold nanosPerSecond at hnear
  unfold Count.greatest at h
  rw [covered?, if_neg]
  rw [inCalendar_iff_second]
  omega

def first : Reading := .ofDate (.ofYmd Date.minYear 1 1) 0 0

def last : Reading := .ofDate (.ofYmd Date.maxYear 12 31) 86399 999999999

theorem inCalendar_iff_between (hl : ¬ r.IsLeapSecond) : r.InCalendar ↔ first ≤ r ∧ r ≤ last := by
  have hnano := nano_lt hl
  have hfirst : first = ⟨-8334601228800, 0⟩ := by decide
  have hlast : last = ⟨8210266876799, 999999999⟩ := by decide
  rw [inCalendar_iff_second, le_def, le_def, hfirst, hlast]
  simp only
  omega

end Reading

namespace CalendarUnit

def length? : CalendarUnit → Option Int
  | days => some 86400000000000
  | weeks => some 604800000000000
  | unit => unit.nanoseconds?

def measured : List CalendarUnit :=
  [nanos, millis, seconds, minutes, hours, halfDays, days, weeks, months, quarters, years]

end CalendarUnit

/-- The reading so many units on, in or out of the calendar: by the length of the unit if it has
one, or else the same time of day on the moved date. -/
def Reading.moved (r : Reading) (amount : Int) (unit : CalendarUnit) : Reading :=
  match unit.length? with
  | some length => .ofNanos (r.toNanos + amount * length)
  | none => r.onDate (r.date.moved amount unit)

namespace ZonedTime

variable {t : ZonedTime} {r : Reading} {amount : Int} {unit : CalendarUnit}

def advanceWithin? (t : ZonedTime) (seconds : Int) : Option ZonedTime := do
  t.advance? (← Count.lapseOfSeconds? seconds)

def plusDaysWithin? (t : ZonedTime) (days : Int) : Option ZonedTime := do
  t.reattach? (← (t.wall.advance (← Count.lapseOfSeconds? (days * Reading.secondsPerDay))).covered?)

/-- Addition with all the limits on its way. -/
def plusWithin? (t : ZonedTime) (amount : Int) : CalendarUnit → Option ZonedTime
  | .nanos => t.advance? amount
  | .millis => do t.advance? (← Count.lapse? (amount * 1000000))
  | .seconds => t.advanceWithin? (amount * 1)
  | .minutes => t.advanceWithin? (amount * 60)
  | .hours => t.advanceWithin? (amount * 3600)
  | .halfDays => t.advanceWithin? (amount * 43200)
  | .days => t.plusDaysWithin? amount
  | .weeks => do t.plusDaysWithin? (← Count.int64? (amount * 7))
  | .months => do t.onDate? (← t.wall.date.addMonthsWithin? amount)
  | .quarters => do t.onDate? (← t.wall.date.addMonthsWithin? (← Count.int64? (amount * 3)))
  | .years => do t.onDate? (← t.wall.date.addMonthsWithin? (← Count.int64? (amount * 12)))
  | .weekBasedYears => do t.onDate? (← t.wall.date.addWeekYearsWithin? amount)
  | .eras => do t.onDate? (← t.wall.date.addErasWithin? amount)

theorem advance?_eq_none (hc : t.utc.InCalendar) (hn : t.utc.nano < 2000000000) {lapse : Int}
    (h : lapse < -(Count.greatest * 1000000) ∨ Count.greatest * 1000000 < lapse) :
    t.advance? lapse = none := by
  have hnone := Reading.covered?_advance_eq_none (Date.InCalendar.nearCalendar hc) hn h
  exact congrArg (Option.map _) hnone

theorem advanceWithin?_eq (hc : t.utc.InCalendar) (hn : t.utc.nano < 2000000000) (seconds : Int) :
    t.advanceWithin? seconds = t.advance? (seconds * Reading.nanosPerSecond) :=
  Count.lapseOfSeconds?_bind seconds fun _ h ↦ advance?_eq_none hc hn h

theorem plusDaysWithin?_eq (hc : t.wall.date.NearCalendar) (hn : t.utc.nano < 2000000000)
    (days : Int) :
    t.plusDaysWithin? days = t.plusDays? days := by
  have hnone (lapse : Int)
      (h : lapse < -(Count.greatest * 1000000) ∨ Count.greatest * 1000000 < lapse) :
      (t.wall.advance lapse).covered?.bind t.reattach? = none := by
    rw [Reading.covered?_advance_eq_none hc hn h]
    rfl
  refine (Count.lapseOfSeconds?_bind (days * Reading.secondsPerDay) hnone).trans ?_
  rw [Int.mul_assoc]
  rfl

theorem plusDays?_eq_none (hc : t.wall.date.NearCalendar) (hn : t.utc.nano < 2000000000)
    {days : Int} (h : days < -Count.greatest ∨ Count.greatest < days) :
    t.plusDays? days = none := by
  have hlapse : days * (Reading.secondsPerDay * Reading.nanosPerSecond) <
      -(Count.greatest * 1000000) ∨
      Count.greatest * 1000000 < days * (Reading.secondsPerDay * Reading.nanosPerSecond) := by
    unfold Count.greatest Reading.secondsPerDay Reading.nanosPerSecond at *
    omega
  exact congrArg (Option.bind · t.reattach?) (Reading.covered?_advance_eq_none hc hn hlapse)

/-- No limit gives up early. -/
theorem plusWithin?_eq_plus? (hz : t.zone.WellSpaced) (hc : t.utc.InCalendar)
    (hn : t.utc.nano < 2000000000)
    (amount : Int) (unit : CalendarUnit) : t.plusWithin? amount unit = t.plus? amount unit := by
  -- An amount beyond a limit leaves the calendar without the limit as well.
  have hnear := wall_nearCalendar hz hc
  have hmonths (months : Int) : (do t.onDate? (← t.wall.date.addMonthsWithin? months)) =
      (t.wall.date.addMonths? months).bind t.onDate? :=
    congrArg (Option.bind · t.onDate?) (Date.addMonthsWithin?_eq hnear months)
  have hcounted (months : Int) :
      (do t.onDate? (← t.wall.date.addMonthsWithin? (← Count.int64? months))) =
      (t.wall.date.addMonths? months).bind t.onDate? := by
    refine (Count.within?_bind fun hout ↦ ?_).trans (hmonths months)
    unfold Count.least Count.greatest at hout
    rw [Date.addMonthsWithin?_eq hnear, Date.addMonths?_eq_none hnear (by omega)]
    rfl
  cases unit with
  | nanos => rfl
  | millis => exact Count.within?_bind fun h ↦ advance?_eq_none hc hn h
  | seconds =>
    refine (advanceWithin?_eq hc hn _).trans ?_
    rw [Int.mul_one]
    rfl
  | minutes | hours | halfDays =>
    refine (advanceWithin?_eq hc hn _).trans ?_
    rw [Int.mul_assoc]
    rfl
  | days => exact plusDaysWithin?_eq hnear hn amount
  | weeks =>
    have hdays := plusDaysWithin?_eq hnear hn (amount * 7)
    have hlimit : t.plusWithin? amount .weeks = t.plusDaysWithin? (amount * 7) := by
      refine Count.within?_bind fun hout ↦ ?_
      unfold Count.least at hout
      rw [hdays, plusDays?_eq_none hnear hn]
      unfold Count.greatest at hout ⊢
      omega
    rw [hlimit, hdays, Int.mul_comm]
    rfl
  | months => exact hmonths amount
  | quarters =>
    refine (hcounted (amount * 3)).trans ?_
    rw [Int.mul_comm]
    rfl
  | years =>
    refine (hcounted (amount * 12)).trans ?_
    rw [Int.mul_comm]
    rfl
  | weekBasedYears =>
    exact congrArg (Option.bind · t.onDate?) (Date.addWeekYearsWithin?_eq _ amount)
  | eras => exact congrArg (Option.bind · t.onDate?) (Date.addErasWithin?_eq _ amount)

theorem utc_plus?_eq_moved (hl : ¬ r.IsLeapSecond) (hu : unit ∈ CalendarUnit.measured) :
    (⟨.utc, r⟩ : ZonedTime).plus? amount unit = covered? .utc (r.moved amount unit) := by
  have hlapse (lapse : Int) : r.advance lapse = .ofNanos (r.toNanos + lapse) := if_neg hl
  have hseconds {length nanos : Int} (hlength : unit.seconds? = some length)
      (hnanos : unit.length? = some nanos)
      (hsame : length * Reading.nanosPerSecond = nanos) :
      (⟨.utc, r⟩ : ZonedTime).plus? amount unit = covered? .utc (r.moved amount unit) := by
    rw [utc_plus?_seconds hl hlength, ← Reading.advance_seconds hl, hlapse, Reading.moved, hnanos,
      ← hsame, Int.mul_comm length, Int.mul_assoc]
  have hmonths (hdated : unit ∈ CalendarUnit.dated) (hnone : unit.length? = none) :
      (⟨.utc, r⟩ : ZonedTime).plus? amount unit = covered? .utc (r.moved amount unit) := by
    have hdate : unit.isTimeBased = false := by
      revert hdated
      cases unit <;> decide
    rw [plus?_eq_onDate? hl hdate, utc_wall, Date.plus?_eq_moved hdated, Reading.moved, hnone]
    simp only
    rw [← covered?_bind, Reading.covered?_onDate, Option.bind_map]
    exact congrArg (Option.bind _) (funext fun date ↦ utc_onDate? r date)
  cases unit with
  | nanos =>
    have hone : r.moved amount .nanos = .ofNanos (r.toNanos + amount) :=
      congrArg (fun lapse ↦ Reading.ofNanos (r.toNanos + lapse)) (Int.mul_one amount)
    rw [hone, ← hlapse]
    rfl
  | millis => exact utc_plus?_millis hl amount
  | seconds | minutes | hours | halfDays | days | weeks => exact hseconds rfl rfl (by decide)
  | months | quarters | years => exact hmonths (by decide) rfl
  | weekBasedYears | eras => exact absurd hu (by decide)

theorem not_isLeapSecond_moved (hl : ¬ r.IsLeapSecond) : ¬ (r.moved amount unit).IsLeapSecond := by
  unfold Reading.moved
  split
  · exact Reading.not_isLeapSecond_ofNanos _
  · exact hl

/-- Addition in UTC, with its limits or without, gives the exact instant from the first nanosecond
of the calendar to the last one, and nothing outside. -/
theorem utc_plus?_exact (hz : t.zone = .utc) (hc : t.utc.InCalendar) (hl : ¬ t.utc.IsLeapSecond)
    (hu : unit ∈ CalendarUnit.measured) :
    t.plusWithin? amount unit = t.plus? amount unit ∧
    t.plus? amount unit =
      if Reading.first ≤ t.utc.moved amount unit ∧ t.utc.moved amount unit ≤ Reading.last
      then some ⟨.utc, t.utc.moved amount unit⟩ else none := by
  have hnano := Reading.nano_lt hl
  have hspaced : t.zone.WellSpaced := hz ▸ Zone.utc_regular.wellSpaced
  refine ⟨plusWithin?_eq_plus? hspaced hc (by omega) amount unit, ?_⟩
  obtain ⟨zone, r⟩ := t
  obtain rfl : zone = .utc := hz
  have hleap : ¬ (r.moved amount unit).IsLeapSecond := not_isLeapSecond_moved hl
  have hbetween := Reading.inCalendar_iff_between hleap
  rw [utc_plus?_eq_moved hl hu]
  split
  · rename_i hin
    exact Zone.covered?_eq (hbetween.2 hin)
  · rename_i hout
    rw [covered?, Reading.covered?, if_neg (mt hbetween.1 hout)]
    rfl

theorem exact_steps_from_january :
    let noon : ZonedTime := ⟨.utc, .ofDate (.ofYmd 2024 1 31) 43200 0⟩
    noon.plusWithin? 1 .months = some ⟨.utc, .ofDate (.ofYmd 2024 2 29) 43200 0⟩ ∧
      noon.plusWithin? Count.greatest .nanos =
      some ⟨.utc, .ofDate (.ofYmd 2316 5 12) 42436 854775807⟩ ∧
      noon.plusWithin? Count.least .years = none := by
  intro noon
  have hmonth : noon.utc.moved 1 .months = .ofDate (.ofYmd 2024 2 29) 43200 0 := by decide
  have hnanos : noon.utc.moved Count.greatest .nanos =
      .ofDate (.ofYmd 2316 5 12) 42436 854775807 := by decide
  have hfar : ¬ Reading.first ≤ noon.utc.moved Count.least .years := by decide
  obtain ⟨hlimit, hexact⟩ := @utc_plus?_exact noon 1 .months rfl (by decide) (by decide) (by decide)
  obtain ⟨hlimit', hexact'⟩ :=
    @utc_plus?_exact noon Count.greatest .nanos rfl (by decide) (by decide) (by decide)
  obtain ⟨hlimit'', hexact''⟩ :=
    @utc_plus?_exact noon Count.least .years rfl (by decide) (by decide) (by decide)
  rw [hmonth, if_pos (by decide)] at hexact
  rw [hnanos, if_pos (by decide)] at hexact'
  rw [if_neg fun h ↦ hfar h.1] at hexact''
  exact ⟨hlimit.trans hexact, hlimit'.trans hexact', hlimit''.trans hexact''⟩

end ZonedTime

end Almanac
