import Almanac.Proofs.Date.Distance
import Almanac.Proofs.ZonedTime.Period

namespace Almanac

namespace Count

variable {n length : Int}

theorem tdiv_floor (hl : 0 < length) (h : 0 ≤ n) :
    0 ≤ n.tdiv length ∧ n.tdiv length * length ≤ n ∧ n < (n.tdiv length + 1) * length := by
  refine ⟨Int.tdiv_nonneg h (Int.le_of_lt hl), ?_⟩
  rw [Int.tdiv_eq_ediv_of_nonneg h]
  exact ⟨Int.ediv_mul_le n (Int.ne_of_gt hl), Int.lt_ediv_add_one_mul_self n hl⟩

theorem tdiv_ceil (hl : 0 < length) (h : n ≤ 0) :
    n.tdiv length ≤ 0 ∧ n ≤ n.tdiv length * length ∧ (n.tdiv length - 1) * length < n := by
  obtain ⟨h₀, h₁, h₂⟩ := tdiv_floor hl (show 0 ≤ -n by omega)
  rw [Int.neg_tdiv] at h₀ h₁ h₂
  rw [Int.neg_mul] at h₁
  rw [Int.add_mul, Int.neg_mul] at h₂
  rw [Int.sub_mul]
  omega

theorem tdiv_near (hl : 0 < length) (n : Int) :
    n - length < n.tdiv length * length ∧ n.tdiv length * length < n + length := by
  have hrest := Int.mul_tdiv_add_tmod n length
  have hless := Int.tmod_lt_of_pos n hl
  have hmore := Int.lt_tmod_of_pos n hl
  rw [Int.mul_comm]
  exact ⟨by omega, by omega⟩

end Count

namespace CalendarUnit

def elapsed : List CalendarUnit := [.millis, .seconds, .minutes, .hours, .halfDays]

/-- The units of dates that follow each other on one scale: days, or months of thirty-two places. -/
def dated : List CalendarUnit := [.days, .weeks, .months, .quarters, .years]

def span : CalendarUnit → Int
  | .weeks => 7
  | .months => 32
  | .quarters => 96
  | .years => 384
  | _ => 1

theorem span_pos (unit : CalendarUnit) : 0 < unit.span := by
  cases unit <;> decide

end CalendarUnit

namespace Date

variable {d e date : Date} {amount : Int} {unit : CalendarUnit}

def plus? (d : Date) (amount : Int) : CalendarUnit → Option Date
  | .days => covered? ⟨d.epochDay + amount⟩
  | .weeks => covered? ⟨d.epochDay + 7 * amount⟩
  | .months => d.addMonths? amount
  | .quarters => d.addMonths? (3 * amount)
  | .years => d.addMonths? (12 * amount)
  | .weekBasedYears => d.addWeekYears? amount
  | .eras => d.addEras? amount
  | _ => none

def unitsUntil (d e : Date) : CalendarUnit → Int
  | .days => e.epochDay - d.epochDay
  | .weeks => (e.epochDay - d.epochDay).tdiv 7
  | .months => d.monthsUntil e
  | .quarters => (d.monthsUntil e).tdiv 3
  | .years => (d.monthsUntil e).tdiv 12
  | .weekBasedYears => e.weekYear - d.weekYear
  | .eras => e.era - d.era
  | _ => 0

def scale (d : Date) : CalendarUnit → Int
  | .days | .weeks => d.epochDay
  | _ => d.place

/-- Adding units to the day shortens it to the end of the month reached. -/
def ClampsDay (d : Date) (amount : Int) (unit : CalendarUnit) : Prop :=
  ∃ months, unit.months? = some months ∧ d.Clamps (months * amount)

theorem lt_def : d < e ↔ d.epochDay < e.epochDay := Iff.rfl

theorem le_def : d ≤ e ↔ d.epochDay ≤ e.epochDay := Iff.rfl

theorem lt_iff_scale (unit : CalendarUnit) : d < e ↔ d.scale unit < e.scale unit := by
  cases unit with
  | days | weeks => exact Iff.rfl
  | _ => exact lt_iff_place

theorem le_iff_scale (unit : CalendarUnit) : d ≤ e ↔ d.scale unit ≤ e.scale unit := by
  cases unit with
  | days | weeks => exact Iff.rfl
  | _ => exact le_iff_place

theorem unitsUntil_floor (hu : unit ∈ CalendarUnit.dated) (h : d ≤ e) :
    0 ≤ d.unitsUntil e unit ∧ d.unitsUntil e unit * unit.span ≤ e.scale unit - d.scale unit ∧
    e.scale unit - d.scale unit < (d.unitsUntil e unit + 1) * unit.span := by
  have hday : 0 ≤ e.epochDay - d.epochDay := Int.sub_nonneg_of_le h
  have hplace : 0 ≤ e.place - d.place := Int.sub_nonneg_of_le (le_iff_place.1 h)
  have hm := Count.tdiv_floor (show (0 : Int) < 32 by decide) hplace
  rw [← monthsUntil_eq] at hm
  cases unit <;> simp only [unitsUntil, scale, CalendarUnit.span]
  case days => omega
  case weeks => exact Count.tdiv_floor (by decide) hday
  case months => exact hm
  case quarters =>
    have := Count.tdiv_floor (show (0 : Int) < 3 by decide) hm.1
    omega
  case years =>
    have := Count.tdiv_floor (show (0 : Int) < 12 by decide) hm.1
    omega
  all_goals exact absurd hu (by decide)

theorem unitsUntil_ceil (hu : unit ∈ CalendarUnit.dated) (h : e ≤ d) :
    d.unitsUntil e unit ≤ 0 ∧ e.scale unit - d.scale unit ≤ d.unitsUntil e unit * unit.span ∧
    (d.unitsUntil e unit - 1) * unit.span < e.scale unit - d.scale unit := by
  have hday : e.epochDay - d.epochDay ≤ 0 := Int.sub_nonpos_of_le h
  have hplace : e.place - d.place ≤ 0 := Int.sub_nonpos_of_le (le_iff_place.1 h)
  have hm := Count.tdiv_ceil (show (0 : Int) < 32 by decide) hplace
  rw [← monthsUntil_eq] at hm
  cases unit <;> simp only [unitsUntil, scale, CalendarUnit.span]
  case days => omega
  case weeks => exact Count.tdiv_ceil (by decide) hday
  case months => exact hm
  case quarters =>
    have := Count.tdiv_ceil (show (0 : Int) < 3 by decide) hm.1
    omega
  case years =>
    have := Count.tdiv_ceil (show (0 : Int) < 12 by decide) hm.1
    omega
  all_goals exact absurd hu (by decide)

theorem plus?_cases (hu : unit ∈ CalendarUnit.dated) :
    (∀ d : Date, d.scale unit = d.epochDay ∧
      ∀ amount, d.plus? amount unit = covered? ⟨d.epochDay + amount * unit.span⟩) ∨
    ∃ months, unit.months? = some months ∧ unit.span = 32 * months ∧
      ∀ d : Date, d.scale unit = d.place ∧
      ∀ amount, d.plus? amount unit = d.addMonths? (months * amount) := by
  cases unit with
  | days =>
    have hspan (amount : Int) : amount * CalendarUnit.days.span = amount := Int.mul_one amount
    exact .inl fun d ↦ ⟨rfl, fun amount ↦ by rw [hspan, plus?]⟩
  | weeks => exact .inl fun d ↦ ⟨rfl, fun amount ↦ by rw [CalendarUnit.span, Int.mul_comm, plus?]⟩
  | months => exact .inr ⟨1, rfl, rfl, fun d ↦ ⟨rfl, fun amount ↦ by rw [Int.one_mul, plus?]⟩⟩
  | quarters => exact .inr ⟨3, rfl, rfl, fun d ↦ ⟨rfl, fun _ ↦ rfl⟩⟩
  | years => exact .inr ⟨12, rfl, rfl, fun d ↦ ⟨rfl, fun _ ↦ rfl⟩⟩
  | _ => exact absurd hu (by decide)

/-- Adding units moves a day along its scale, or less far if that shortens the day. -/
theorem scale_plus?_le (hu : unit ∈ CalendarUnit.dated) (h : d.plus? amount unit = some date) :
    date.scale unit ≤ d.scale unit + amount * unit.span := by
  rcases plus?_cases hu with hdays | ⟨months, -, hspan, hmonths⟩
  · rw [(hdays d).2] at h
    apply Int.le_of_eq
    rw [(hdays d).1, (hdays date).1, (inCalendar_of_covered? h).2]
  · rw [(hmonths d).2] at h
    have hplace := place_addMonths?_le h
    rw [(hmonths d).1, (hmonths date).1, hspan, Int.mul_left_comm, Int.mul_comm amount]
    exact hplace

theorem scale_plus?_eq (hu : unit ∈ CalendarUnit.dated) (h : d.plus? amount unit = some date)
    (hc : ¬ d.ClampsDay amount unit) : date.scale unit = d.scale unit + amount * unit.span := by
  rcases plus?_cases hu with hdays | ⟨months, hm, hspan, hmonths⟩
  · rw [(hdays d).2] at h
    rw [(hdays d).1, (hdays date).1, (inCalendar_of_covered? h).2]
  · rw [(hmonths d).2] at h
    have hplace := place_addMonths?_eq h (fun hclamps ↦ hc ⟨months, hm, hclamps⟩)
    rw [(hmonths d).1, (hmonths date).1, hspan, Int.mul_left_comm, Int.mul_comm amount]
    exact hplace

theorem le_plus? (hu : unit ∈ CalendarUnit.dated) (h : d.plus? amount unit = some date)
    (he : e.scale unit ≤ d.scale unit + amount * unit.span) : e ≤ date := by
  rcases plus?_cases hu with hdays | ⟨months, -, hspan, hmonths⟩
  · rw [(hdays d).2] at h
    rw [(hdays d).1, (hdays e).1] at he
    rw [(inCalendar_of_covered? h).2]
    exact he
  · rw [(hmonths d).2] at h
    rw [(hmonths d).1, (hmonths e).1, hspan, Int.mul_left_comm, Int.mul_comm amount] at he
    exact le_addMonths? h he

theorem plus?_unitsUntil_of_le (hu : unit ∈ CalendarUnit.dated) (h : d ≤ e) :
    0 ≤ d.unitsUntil e unit ∧ (∀ date, d.plus? (d.unitsUntil e unit) unit = some date → date ≤ e) ∧
    ∀ date, d.plus? (d.unitsUntil e unit + 1) unit = some date →
    ¬ d.ClampsDay (d.unitsUntil e unit + 1) unit → e < date := by
  obtain ⟨h₀, h₁, h₂⟩ := unitsUntil_floor hu h
  refine ⟨h₀, fun date hd ↦ ?_, fun date hd hc ↦ ?_⟩
  · have := scale_plus?_le hu hd
    rw [le_iff_scale unit]
    omega
  · have := scale_plus?_eq hu hd hc
    rw [lt_iff_scale unit]
    omega

theorem plus?_unitsUntil_of_ge (hu : unit ∈ CalendarUnit.dated) (h : e ≤ d) :
    d.unitsUntil e unit ≤ 0 ∧ (∀ date, d.plus? (d.unitsUntil e unit) unit = some date → e ≤ date) ∧
    ∀ date, d.plus? (d.unitsUntil e unit - 1) unit = some date → date < e := by
  obtain ⟨h₀, h₁, h₂⟩ := unitsUntil_ceil hu h
  refine ⟨h₀, fun date hd ↦ le_plus? hu hd (by omega), fun date hd ↦ ?_⟩
  have := scale_plus?_le hu hd
  rw [lt_iff_scale unit]
  omega

end Date

namespace Reading

variable {r r' : Reading} {d e : Date}

theorem le_def : r ≤ r' ↔ r.second < r'.second ∨ r.second = r'.second ∧ r.nano ≤ r'.nano := Iff.rfl

theorem lt_def : r < r' ↔ r.second < r'.second ∨ r.second = r'.second ∧ r.nano < r'.nano := Iff.rfl

theorem lt_iff_not_le : r < r' ↔ ¬ r' ≤ r := by
  rw [lt_def, le_def]
  omega

theorem le_of_lt (h : r < r') : r ≤ r' := h.imp_right fun hnano ↦ ⟨hnano.1, Nat.le_of_lt hnano.2⟩

theorem le_iff_toNanos (h : ¬ r.IsLeapSecond) (h' : ¬ r'.IsLeapSecond) :
    r ≤ r' ↔ r.toNanos ≤ r'.toNanos := by
  have hn := nano_lt h
  have hn' := nano_lt h'
  rw [le_def]
  unfold toNanos nanosPerSecond
  omega

theorem lt_iff_toNanos (h : ¬ r.IsLeapSecond) (h' : ¬ r'.IsLeapSecond) :
    r < r' ↔ r.toNanos < r'.toNanos := by
  have hn := nano_lt h
  have hn' := nano_lt h'
  rw [lt_def]
  unfold toNanos nanosPerSecond
  omega

def onDate (r : Reading) (date : Date) : Reading := .ofDate date r.secondOfDay r.nano

@[simp] theorem date_onDate (r : Reading) (date : Date) : (r.onDate date).date = date :=
  date_ofDate r.secondOfDay_bounds.1 r.secondOfDay_bounds.2

@[simp] theorem onDate_inCalendar_iff : (r.onDate d).InCalendar ↔ d.InCalendar := by
  simp [InCalendar]

@[simp] theorem secondOfDay_onDate (r : Reading) (date : Date) :
    (r.onDate date).secondOfDay = r.secondOfDay :=
  secondOfDay_ofDate r.secondOfDay_bounds.1 r.secondOfDay_bounds.2

@[simp] theorem onDate_date (r : Reading) : r.onDate r.date = r := ofDate_date r

@[simp] theorem onDate_onDate (r : Reading) (d e : Date) : (r.onDate d).onDate e = r.onDate e := by
  rw [onDate, secondOfDay_onDate]
  rfl

theorem onDate_le_of_le (h : d ≤ e) (hr : r.onDate e ≤ r') : r.onDate d ≤ r' := by
  have hd : d.epochDay ≤ e.epochDay := h
  rw [le_def] at hr ⊢
  simp only [onDate, ofDate, secondsPerDay] at hr ⊢
  omega

theorem le_onDate_of_le (h : e ≤ d) (hr : r' ≤ r.onDate e) : r' ≤ r.onDate d := by
  have hd : e.epochDay ≤ d.epochDay := h
  rw [le_def] at hr ⊢
  simp only [onDate, ofDate, secondsPerDay] at hr ⊢
  omega

theorem lt_onDate_of_lt (h : e < d) (hr : r' < r.onDate ⟨e.epochDay + 1⟩) : r' < r.onDate d := by
  have hd : e.epochDay < d.epochDay := h
  rw [lt_def] at hr ⊢
  simp only [onDate, ofDate, secondsPerDay] at hr ⊢
  omega

theorem onDate_lt_of_lt (h : d < e) (hr : r.onDate ⟨e.epochDay - 1⟩ < r') : r.onDate d < r' := by
  have hd : d.epochDay < e.epochDay := h
  rw [lt_def] at hr ⊢
  simp only [onDate, ofDate, secondsPerDay] at hr ⊢
  omega

theorem covered?_onDate (r : Reading) (d : Date) :
    (r.onDate d).covered? = d.covered?.map r.onDate :=
  covered?_ofDate r.secondOfDay_bounds.1 r.secondOfDay_bounds.2 d r.nano

theorem shift_days (r : Reading) (days : Int) :
    r.shift (days * secondsPerDay) = r.onDate ⟨r.date.epochDay + days⟩ := by
  simp only [shift, onDate, ofDate, date, secondOfDay, secondsPerDay, mk.injEq, and_true]
  omega

end Reading

namespace ZonedTime

variable {start stop t : ZonedTime} {amount : Int} {unit : CalendarUnit}

theorem plus?_eq_onDate? (h : ¬ t.utc.IsLeapSecond) (hu : unit.isTimeBased = false) :
    t.plus? amount unit = (t.wall.date.plus? amount unit).bind t.onDate? := by
  have hdays (days : Int) : t.plusDays? days =
      (Date.covered? ⟨t.wall.date.epochDay + days⟩).bind t.onDate? := by
    have hwall : ¬ t.wall.IsLeapSecond := h
    change (t.wall.advance (days * (Reading.secondsPerDay * Reading.nanosPerSecond))).covered?.bind
      _ = _
    rw [← Int.mul_assoc, Reading.advance_seconds hwall, Reading.shift_days, Reading.covered?_onDate,
      Option.bind_map]
    rfl
  cases unit with
  | days => exact hdays amount
  | weeks => exact hdays (7 * amount)
  | nanos | millis | seconds | minutes | hours | halfDays => cases hu
  | _ => rfl

theorem unitsUntil_eq_date (hu : unit ∈ CalendarUnit.dated) (start stop : ZonedTime) :
    start.unitsUntil stop unit =
      start.wall.date.unitsUntil (wholeDayEnd start.wall (stop.inZone start.zone).wall) unit := by
  cases unit with
  | days | weeks | months | quarters | years => rfl
  | _ => exact absurd hu (by decide)

theorem utc_plus?_onDate {r : Reading} (h : ¬ r.IsLeapSecond) (hu : unit.isTimeBased = false)
    (ht : (⟨.utc, r⟩ : ZonedTime).plus? amount unit = some t) :
    ∃ date, r.date.plus? amount unit = some date ∧ t.utc = r.onDate date := by
  rw [plus?_eq_onDate? h hu, utc_wall] at ht
  obtain ⟨date, hdate, ht⟩ := Option.bind_eq_some_iff.1 ht
  rw [utc_onDate?] at ht
  exact ⟨date, hdate, congrArg ZonedTime.utc (eq_of_covered? ht).2⟩

theorem elapsed_cases (hu : unit ∈ CalendarUnit.elapsed) :
    ∃ length : Int, 0 < length ∧
      (∀ start stop : ZonedTime,
        start.unitsUntil stop unit = (stop.utc.since start.utc).tdiv length) ∧
      ∀ (t : ZonedTime) (amount : Int), t.plus? amount unit = t.advance? (amount * length) := by
  cases unit with
  | millis => exact ⟨1000000, by decide, fun _ _ ↦ rfl, fun _ _ ↦ rfl⟩
  | seconds => exact ⟨Reading.nanosPerSecond, by decide, fun _ _ ↦ rfl, fun _ _ ↦ rfl⟩
  | minutes => exact ⟨60 * Reading.nanosPerSecond, by decide, fun _ _ ↦ rfl, fun _ _ ↦ rfl⟩
  | hours => exact ⟨3600 * Reading.nanosPerSecond, by decide, fun _ _ ↦ rfl, fun _ _ ↦ rfl⟩
  | halfDays => exact ⟨43200 * Reading.nanosPerSecond, by decide, fun _ _ ↦ rfl, fun _ _ ↦ rfl⟩
  | _ => exact absurd hu (by decide)

theorem toNanos_advance? {lapse : Int} (h : ¬ t.utc.IsLeapSecond) {moved : ZonedTime}
    (ht : t.advance? lapse = some moved) :
    ¬ moved.utc.IsLeapSecond ∧ moved.utc.toNanos = t.utc.toNanos + lapse := by
  obtain ⟨-, rfl⟩ := eq_of_covered? ht
  refine ⟨?_, Reading.toNanos_advance h lapse⟩
  rw [Reading.advance, if_neg h]
  exact Reading.not_isLeapSecond_ofNanos _

theorem wholeDayEnd_epochDay {r r' : Reading}
    (h : r.date < r'.date → Date.InCalendar ⟨r'.date.epochDay - 1⟩)
    (h' : r'.date < r.date → Date.InCalendar ⟨r'.date.epochDay + 1⟩) :
    (wholeDayEnd r r').epochDay =
      if r.date < r'.date ∧ r'.EarlierInDay r then r'.date.epochDay - 1
      else if r'.date < r.date ∧ r.EarlierInDay r' then r'.date.epochDay + 1
      else r'.date.epochDay := by
  unfold wholeDayEnd
  split
  · rename_i hback
    rw [Date.covered?_of_inCalendar (h hback.1), Option.getD_some]
  · split
    · rename_i hback
      rw [Date.covered?_of_inCalendar (h' hback.1), Option.getD_some]
    · rfl

/-- The start's time of day does not pass the stop on the last whole day, and does on the next. A
day given back lies in the calendar, if the start's day does and the stop's is at most the day
behind its end. -/
theorem wholeDayEnd_of_le {r r' : Reading} (hl : Date.yearStart Date.minYear ≤ r.date.epochDay)
    (hu : r'.date.epochDay ≤ Date.yearStart (Date.maxYear + 1)) (h : r ≤ r') :
    r.date ≤ wholeDayEnd r r' ∧ r.onDate (wholeDayEnd r r') ≤ r' ∧
      r' < r.onDate ⟨(wholeDayEnd r r').epochDay + 1⟩ := by
  have hd := Reading.date_le h
  have he := @wholeDayEnd_epochDay r r' (fun (hlt : r.date.epochDay < r'.date.epochDay) ↦
    ⟨by simp only; omega, by simp only; omega⟩) fun hgt ↦ absurd hgt (Int.not_lt.2 hd)
  simp only [Reading.le_def, Reading.lt_def, Date.le_def, Date.lt_def, Reading.onDate,
    Reading.ofDate, Reading.EarlierInDay, Reading.date, Reading.secondOfDay,
    Reading.secondsPerDay] at *
  split at he <;> omega

theorem wholeDayEnd_of_ge {r r' : Reading} (hl : Date.yearStart Date.minYear ≤ r'.date.epochDay + 1)
    (hu : r.date.epochDay < Date.yearStart (Date.maxYear + 1)) (h : r' ≤ r) :
    wholeDayEnd r r' ≤ r.date ∧ r' ≤ r.onDate (wholeDayEnd r r') ∧
      r.onDate ⟨(wholeDayEnd r r').epochDay - 1⟩ < r' := by
  have hd := Reading.date_le h
  have he := @wholeDayEnd_epochDay r r' (fun hgt ↦ absurd hgt (Int.not_lt.2 hd))
    fun (hlt : r'.date.epochDay < r.date.epochDay) ↦ ⟨by simp only; omega, by simp only; omega⟩
  simp only [Reading.le_def, Reading.lt_def, Date.le_def, Date.lt_def, Reading.onDate,
    Reading.ofDate, Reading.EarlierInDay, Reading.date, Reading.secondOfDay,
    Reading.secondsPerDay] at *
  split at he
  · omega
  · split at he <;> omega

theorem wholeDayEnd_le_succ (r r' : Reading) :
    (wholeDayEnd r r').epochDay ≤ r'.date.epochDay + 1 := by
  unfold wholeDayEnd Date.covered?
  split
  · split <;> simp only [Option.getD_some, Option.getD_none] <;> omega
  · split
    · split <;> simp only [Option.getD_some, Option.getD_none] <;> omega
    · omega

theorem wholeDayEnd_le {r r' : Reading} (h : r' ≤ r) : wholeDayEnd r r' ≤ r.date := by
  have hd : r'.date ≤ r.date := Reading.date_le h
  unfold wholeDayEnd
  split
  · rename_i hback
    exact absurd hback.1 (Int.not_lt.2 hd)
  · split
    · rename_i hback
      have hlt : r'.date.epochDay < r.date.epochDay := hback.1
      unfold Date.covered?
      split
      · exact Int.add_one_le_of_lt hlt
      · exact hd
    · exact hd

/-- Added to the start, the whole units to the stop come near it but do not pass it, and one unit
more does. Only where that unit shortens the day of the month may the sum fall short of a later
stop. -/
theorem units_counted_are_added (hl : ¬ start.utc.IsLeapSecond) (hl' : ¬ stop.utc.IsLeapSecond)
    (hc : start.utc.InCalendar) (hc' : stop.utc.InCalendar)
    (hu : unit ∈ CalendarUnit.elapsed ∨ unit ∈ CalendarUnit.dated ∧ start.zone = .utc ∧
      stop.zone = .utc) :
    (start.utc ≤ stop.utc → 0 ≤ start.unitsUntil stop unit ∧
      (∀ t, start.plus? (start.unitsUntil stop unit) unit = some t → t.utc ≤ stop.utc) ∧
      ∀ t, start.plus? (start.unitsUntil stop unit + 1) unit = some t →
        ¬ start.wall.date.ClampsDay (start.unitsUntil stop unit + 1) unit → stop.utc < t.utc) ∧
    (stop.utc ≤ start.utc → start.unitsUntil stop unit ≤ 0 ∧
      (∀ t, start.plus? (start.unitsUntil stop unit) unit = some t → stop.utc ≤ t.utc) ∧
      ∀ t, start.plus? (start.unitsUntil stop unit - 1) unit = some t → t.utc < stop.utc) := by
  rcases hu with hu | ⟨hu, hz, hz'⟩
  · -- The count is a division of nanoseconds toward zero.
    obtain ⟨length, hpos, hcount, hplus⟩ := elapsed_cases hu
    simp only [hcount, hplus, Reading.since_eq hl' hl]
    constructor
    · intro hle
      obtain ⟨h₀, h₁, h₂⟩ :=
        Count.tdiv_floor hpos (Int.sub_nonneg_of_le ((Reading.le_iff_toNanos hl hl').1 hle))
      refine ⟨h₀, fun t ht ↦ ?_, fun t ht _ ↦ ?_⟩
      · obtain ⟨hleap, hn⟩ := toNanos_advance? hl ht
        rw [Reading.le_iff_toNanos hleap hl']
        omega
      · obtain ⟨hleap, hn⟩ := toNanos_advance? hl ht
        rw [Reading.lt_iff_toNanos hl' hleap]
        omega
    · intro hle
      obtain ⟨h₀, h₁, h₂⟩ :=
        Count.tdiv_ceil hpos (Int.sub_nonpos_of_le ((Reading.le_iff_toNanos hl' hl).1 hle))
      refine ⟨h₀, fun t ht ↦ ?_, fun t ht ↦ ?_⟩
      · obtain ⟨hleap, hn⟩ := toNanos_advance? hl ht
        rw [Reading.le_iff_toNanos hl' hleap]
        omega
      · obtain ⟨hleap, hn⟩ := toNanos_advance? hl ht
        rw [Reading.lt_iff_toNanos hleap hl']
        omega
  · -- Dates are counted up to the last whole day, which keeps the time of day out of the count.
    obtain ⟨zone, r⟩ := start
    obtain ⟨zone', r'⟩ := stop
    obtain rfl : zone = .utc := hz
    obtain rfl : zone' = .utc := hz'
    have hdate : unit.isTimeBased = false := by
      revert hu
      cases unit <;> decide
    simp only [unitsUntil_eq_date hu, inZone, utc_wall]
    constructor
    · intro hle
      obtain ⟨he, hwhole, hnext⟩ := wholeDayEnd_of_le hc.1 (Int.le_of_lt hc'.2) hle
      obtain ⟨h₀, h₁, h₂⟩ := Date.plus?_unitsUntil_of_le hu he
      refine ⟨h₀, fun t ht ↦ ?_, fun t ht hclamps ↦ ?_⟩
      · obtain ⟨date, hd, htime⟩ := utc_plus?_onDate hl hdate ht
        rw [htime]
        exact Reading.onDate_le_of_le (h₁ date hd) hwhole
      · obtain ⟨date, hd, htime⟩ := utc_plus?_onDate hl hdate ht
        rw [htime]
        exact Reading.lt_onDate_of_lt (h₂ date hd hclamps) hnext
    · intro hle
      obtain ⟨he, hwhole, hnext⟩ := wholeDayEnd_of_ge (Int.le_add_one hc'.1) hc.2 hle
      obtain ⟨h₀, h₁, h₂⟩ := Date.plus?_unitsUntil_of_ge hu he
      refine ⟨h₀, fun t ht ↦ ?_, fun t ht ↦ ?_⟩
      · obtain ⟨date, hd, htime⟩ := utc_plus?_onDate hl hdate ht
        rw [htime]
        exact Reading.le_onDate_of_le (h₁ date hd) hwhole
      · obtain ⟨date, hd, htime⟩ := utc_plus?_onDate hl hdate ht
        rw [htime]
        exact Reading.onDate_lt_of_lt (h₂ date hd) hnext

theorem months_counted_are_added :
    let start : ZonedTime := ⟨.utc, .ofDate (.ofYmd 2024 1 31) 43200 0⟩
    let stop : ZonedTime := ⟨.utc, .ofDate (.ofYmd 2024 3 31) 39600 0⟩
    let february : ZonedTime := ⟨.utc, .ofDate (.ofYmd 2024 2 29) 43200 0⟩
    let march : ZonedTime := ⟨.utc, .ofDate (.ofYmd 2024 3 31) 43200 0⟩
    start.unitsUntil stop .months = 1 ∧ start.plus? 1 .months = some february ∧
    february.utc ≤ stop.utc ∧ start.plus? 2 .months = some march ∧ stop.utc < march.utc := by
  intro start stop february march
  have hcount : start.unitsUntil stop .months = 1 := by decide
  have hplus : start.plus? 1 .months = some february := by decide
  have hplus' : start.plus? (1 + 1) .months = some march := by decide
  have hclamps : ¬ start.wall.date.ClampsDay (1 + 1) .months := by
    rintro ⟨months, hm, hclamps⟩
    cases hm
    revert hclamps
    decide
  obtain ⟨hforward, -⟩ :=
    @units_counted_are_added start stop .months (by decide) (by decide) (by decide) (by decide)
      (.inr ⟨by decide, rfl, rfl⟩)
  rw [hcount] at hforward
  obtain ⟨-, hle, hlt⟩ := hforward (by decide)
  exact ⟨hcount, hplus, hle february hplus, hplus', hlt march hplus' hclamps⟩

end ZonedTime

end Almanac
