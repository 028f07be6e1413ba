import Almanac.Proofs.Date.WeekYear
import Almanac.Proofs.ZonedTime.Floor
import Almanac.ZonedTime.Distance

namespace Almanac

def CalendarUnit.regular : List CalendarUnit :=
  [.millis, .seconds, .minutes, .hours, .halfDays, .days, .weeks, .months, .quarters, .years]

def CalendarUnit.seconds? : CalendarUnit → Option Int
  | .seconds => some 1
  | .minutes => some 60
  | .hours => some 3600
  | .halfDays => some 43200
  | .days => some 86400
  | .weeks => some 604800
  | _ => none

def CalendarUnit.months? : CalendarUnit → Option Int
  | .months => some 1
  | .quarters => some 3
  | .years => some 12
  | _ => none

namespace Reading

variable {r : Reading} {unit : CalendarUnit}

def period (r : Reading) : CalendarUnit → Int
  | .nanos => r.toNanos
  | .millis => r.second * 1000 + r.nano / 1000000
  | .seconds => r.second
  | .minutes => r.second / 60
  | .hours => r.second / 3600
  | .halfDays => r.second / 43200
  | .days => r.date.epochDay
  | .weeks => (r.date.epochDay + 3) / 7
  | .months => r.date.monthIndex
  | .quarters => r.date.monthIndex / 3
  | .years => r.date.monthIndex / 12
  | .weekBasedYears => r.date.weekYear
  | .eras => r.date.era

def ofPeriod (number : Int) : CalendarUnit → Reading
  | .nanos => .ofNanos number
  | .millis => ⟨number / 1000, (number % 1000).toNat * 1000000⟩
  | .seconds => ⟨number, 0⟩
  | .minutes => ⟨60 * number, 0⟩
  | .hours => ⟨3600 * number, 0⟩
  | .halfDays => ⟨43200 * number, 0⟩
  | .days => .ofDate ⟨number⟩ 0 0
  | .weeks => .ofDate ⟨7 * number - 3⟩ 0 0
  | .months => .ofDate (.firstOfMonth number) 0 0
  | .quarters => .ofDate (.firstOfMonth (3 * number)) 0 0
  | .years | .eras => .ofDate (.firstOfMonth (12 * number)) 0 0
  | .weekBasedYears => .ofDate (.weekYearStart number) 0 0

theorem advance_seconds (h : ¬ r.IsLeapSecond) (seconds : Int) :
    r.advance (seconds * nanosPerSecond) = r.shift seconds := by
  rw [advance, if_neg h]
  unfold IsLeapSecond at h
  cases r
  simp only [ofNanos, toNanos, shift, nanosPerSecond, mk.injEq] at h ⊢
  omega

theorem nano_lt (h : ¬ r.IsLeapSecond) : r.nano < 1000000000 := by
  unfold IsLeapSecond nanosPerSecond at h
  omega

theorem second_le {a b : Reading} (h : a ≤ b) :
    a.second ≤ b.second := h.elim Int.le_of_lt fun h ↦ Int.le_of_eq h.1

theorem le_iff_second_le {a b : Reading} (h : a.nano = 0) : a ≤ b ↔ a.second ≤ b.second := by
  change a.second < b.second ∨ a.second = b.second ∧ a.nano ≤ b.nano ↔ a.second ≤ b.second
  omega

theorem date_le {a b : Reading} (h : a ≤ b) : a.date.epochDay ≤ b.date.epochDay := by
  have hs := second_le h
  unfold date secondsPerDay
  simp only
  omega

theorem period_le {a b : Reading} (ha : ¬ a.IsLeapSecond) (h : a ≤ b) (unit : CalendarUnit) :
    a.period unit ≤ b.period unit := by
  have hd := date_le h
  have hm := Date.monthIndex_le hd
  have hn := nano_lt ha
  have hs : a.second < b.second ∨ a.second = b.second ∧ a.nano ≤ b.nano := h
  cases unit <;> simp only [period]
  case nanos =>
    unfold toNanos nanosPerSecond
    omega
  case weekBasedYears => exact Date.weekYear_le hd
  case eras =>
    have hy := Date.year_le hd
    unfold Date.era
    split <;> split <;> omega
  all_goals omega

theorem period_bounds (hc : r.InCalendar) (h : ¬ r.IsLeapSecond)
    (hu : unit ∈ CalendarUnit.regular) :
    -10000000000000000 < r.period unit ∧ r.period unit < 10000000000000000 := by
  have hy := Date.inCalendar_iff_year.1 hc
  have hm := Date.month_bounds r.date
  have hn := nano_lt h
  have hday := Date.inCalendar_iff_epochDay.1 hc
  have hd : r.date.epochDay = r.second / 86400 := rfl
  unfold Date.minYear Date.maxYear at hy
  cases unit <;> simp only [period, Date.monthIndex]
  case nanos | weekBasedYears | eras => exact absurd hu (by decide)
  all_goals omega

theorem secondOfDay_ofDate {date : Date} {second : Int} {nano : Nat} (h₁ : 0 ≤ second)
    (h₂ : second < 86400) :
    (ofDate date second nano).secondOfDay = second := by
  simp only [ofDate, secondOfDay, secondsPerDay]
  omega

@[simp] theorem secondOfDay_midnight (date : Date) : (ofDate date 0 0).secondOfDay = 0 :=
  secondOfDay_ofDate (by decide) (by decide)

theorem since_eq {a b : Reading} (ha : ¬ a.IsLeapSecond) (hb : ¬ b.IsLeapSecond) :
    a.since b = a.toNanos - b.toNanos := by
  rw [since, if_neg (fun h ↦ hb h.2), if_neg (fun h ↦ ha h.2), Int.zero_mul, Int.add_zero]

@[simp] theorem not_isLeapSecond_ofNanos (nanos : Int) : ¬ (ofNanos nanos).IsLeapSecond := by
  simp only [IsLeapSecond, ofNanos, nanosPerSecond]
  omega

@[simp] theorem not_isLeapSecond_ofPeriod (number : Int) (unit : CalendarUnit) :
    ¬ (ofPeriod number unit).IsLeapSecond := by
  unfold IsLeapSecond nanosPerSecond
  cases unit <;> simp only [ofPeriod, ofNanos, ofDate, nanosPerSecond] <;> omega

theorem covered?_ofDate {second : Int} (h₁ : 0 ≤ second) (h₂ : second < 86400) (d : Date)
    (nano : Nat) :
    (ofDate d second nano).covered? = d.covered?.map fun date ↦ .ofDate date second nano := by
  have hdate : (ofDate d second nano).InCalendar ↔ d.InCalendar := by
    rw [InCalendar, date_ofDate h₁ h₂]
  by_cases h : d.InCalendar
  · rw [covered?, if_pos (hdate.2 h), Date.covered?_of_inCalendar h, Option.map_some]
  · rw [covered?, if_neg (mt hdate.1 h), Date.covered?, if_neg h, Option.map_none]

/-- A reading is floored to the start of the period that holds it. Only periods of more than a day
may start outside the calendar. -/
theorem floor?_eq_ofPeriod (h : unit = .nanos ∨ unit = .millis → ¬ r.IsLeapSecond) :
    r.floor? unit = if unit.isTimeBased ∨ unit = .days then some (ofPeriod (r.period unit) unit)
      else (ofPeriod (r.period unit) unit).covered? := by
  have hday (second : Int) (nano : Nat) {start : Reading} (he : ofDate r.date second nano = start) :
      ((some r.date).map fun date ↦ ofDate date second nano) = some start :=
    congrArg some he
  have hstart {d : Date} {start : Option Date} (he : start = d.covered?) :
      (start.map fun date ↦ ofDate date 0 0) = (ofDate d 0 0).covered? := by
    rw [he, covered?_ofDate (by decide) (by decide)]
  have hmonth {year month index : Int} (hy : year = index / 12) (hm : month = index % 12 + 1) :
      ((Date.ofYmd? year month 1).map fun date ↦ ofDate date 0 0) =
      (ofDate (.firstOfMonth index) 0 0).covered? :=
    hstart (by rw [hy, hm, Date.ofYmd?_firstOfMonth])
  have hindex := Date.monthIndex_ediv r.date
  have hindex' := Date.monthIndex_emod r.date
  rw [floor?]
  cases unit with
  | nanos => exact hday _ _ ((ofDate_date r).trans (ofNanos_toNanos (h (.inl rfl))).symm)
  | millis =>
    have hn := nano_lt (h (.inr rfl))
    apply hday
    simp only [ofDate, flooredTime, date, secondOfDay, secondsPerDay, period, ofPeriod, mk.injEq]
    omega
  | seconds | minutes | hours | halfDays =>
    apply hday
    simp only [ofDate, flooredTime, date, secondOfDay, secondsPerDay, period, ofPeriod,
      mk.injEq, and_true]
    omega
  | days => rfl
  | weeks =>
    refine hstart (congrArg Date.covered? ?_)
    rw [Date.weekStart, Date.mk.injEq, Date.weekday]
    simp only [period]
    omega
  | months => exact hmonth hindex.symm hindex'.symm
  | quarters =>
    exact @hmonth _ _ (3 * (r.date.monthIndex / 3)) (by omega) (by rw [Date.quarter]; omega)
  | years => exact @hmonth _ _ (12 * (r.date.monthIndex / 12)) (by omega) (by omega)
  | weekBasedYears => exact hstart (Date.ofWeekDate?_one_one r.date.weekYear)
  | eras =>
    have hera : (if 1 ≤ r.date.year then 1 else 0) = r.date.era := rfl
    exact @hmonth _ _ (12 * r.date.era) (by omega) (by omega)

end Reading

namespace ZonedTime

variable {r : Reading} {unit : CalendarUnit}

@[simp] theorem utc_reattach? (r : Reading) : (⟨.utc, r⟩ : ZonedTime).reattach? = covered? .utc :=
  funext fun wall ↦ utc_attach? wall _

theorem wall_nearCalendar {t : ZonedTime} (hz : t.zone.WellSpaced) (hc : t.utc.InCalendar) :
    t.wall.date.NearCalendar :=
  Reading.nearCalendar_shift hc (offset_bounds hz).1 (offset_bounds hz).2

@[simp] theorem utc_wall (r : Reading) : (⟨.utc, r⟩ : ZonedTime).wall = r := Reading.shift_zero r

theorem wall_eq_of_utc {t : ZonedTime} (hz : t.zone = .utc) : t.wall = t.utc := by
  obtain ⟨zone, r⟩ := t
  obtain rfl : zone = .utc := hz
  exact utc_wall r

theorem wall_inCalendar_of_utc {t : ZonedTime} (hz : t.zone = .utc) (hc : t.utc.InCalendar) :
    t.wall.InCalendar :=
  (wall_eq_of_utc hz).symm ▸ hc

@[simp] theorem covered?_bind (zone : Zone) (wall : Reading) :
    wall.covered?.bind (covered? zone) = covered? zone wall := by
  unfold covered? Reading.covered?
  by_cases h : wall.InCalendar <;> simp [h]

theorem covered?_ofDate (zone : Zone) (d : Date) :
    (d.covered?.map fun date ↦ .ofDate date 0 0).bind (covered? zone) =
    covered? zone (.ofDate d 0 0) := by
  rw [← Reading.covered?_ofDate (by decide) (by decide), covered?_bind]

theorem utc_floor? (h : unit = .nanos ∨ unit = .millis → ¬ r.IsLeapSecond) (hc : r.InCalendar) :
    (⟨.utc, r⟩ : ZonedTime).floor? unit = covered? .utc (.ofPeriod (r.period unit) unit) := by
  rw [floor?_eq_of_regular (fun _ ↦ ⟨Zone.utc_regular, hc⟩), utc_reattach?, utc_wall,
    Reading.floor?_eq_ofPeriod h]
  split
  · rfl
  · exact covered?_bind .utc _

theorem eq_of_covered? {zone : Zone} {wall : Reading} {t : ZonedTime}
    (h : covered? zone wall = some t) :
    wall.InCalendar ∧ t = ⟨zone, wall⟩ := by
  unfold covered? Reading.covered? at h
  split at h
  · rename_i hc
    exact ⟨hc, (Option.some.inj h).symm⟩
  · cases h

theorem utc_plus?_elapsed (r : Reading) {length : Int} (hl : unit.seconds? = some length)
    (amount : Int) :
    (⟨.utc, r⟩ : ZonedTime).plus? amount unit =
    covered? .utc (r.advance (length * amount * Reading.nanosPerSecond)) := by
  have hadvance (n : Int) :
      covered? .utc (r.advance (amount * (n * Reading.nanosPerSecond))) =
        covered? .utc (r.advance (n * amount * Reading.nanosPerSecond)) := by
    rw [← Int.mul_assoc, Int.mul_comm amount]
  have hdays (amount : Int) : (⟨.utc, r⟩ : ZonedTime).plusDays? amount =
      covered? .utc (r.advance (amount * (86400 * Reading.nanosPerSecond))) := by
    change ((ZonedTime.wall _).advance (amount * (86400 * Reading.nanosPerSecond))).covered?.bind
      _ = _
    simp
  cases unit <;> cases hl
  case seconds =>
    rw [Int.one_mul]
    rfl
  case minutes => exact hadvance 60
  case hours => exact hadvance 3600
  case halfDays => exact hadvance 43200
  case days => exact (hdays amount).trans (hadvance 86400)
  case weeks =>
    rw [show 604800 * amount * Reading.nanosPerSecond =
      7 * amount * (86400 * Reading.nanosPerSecond) by
      unfold Reading.nanosPerSecond; omega]
    exact hdays (7 * amount)

theorem utc_plus?_seconds (h : ¬ r.IsLeapSecond) {length : Int} (hl : unit.seconds? = some length)
    (amount : Int) :
    (⟨.utc, r⟩ : ZonedTime).plus? amount unit = covered? .utc (r.shift (length * amount)) := by
  rw [utc_plus?_elapsed r hl, Reading.advance_seconds h]

@[simp] theorem utc_onDate? (r : Reading) (date : Date) :
    (⟨.utc, r⟩ : ZonedTime).onDate? date = covered? .utc (.ofDate date r.secondOfDay r.nano) := by
  simp [onDate?]

theorem utc_plus?_months {months : Int} (hm : unit.months? = some months) (amount : Int) :
    (⟨.utc, r⟩ : ZonedTime).plus? amount unit =
      (r.date.addMonths? (months * amount)).bind fun date ↦
      covered? .utc (.ofDate date r.secondOfDay r.nano) := by
  have hon (amount : Int) :
      (do (⟨.utc, r⟩ : ZonedTime).onDate? (← (ZonedTime.wall ⟨.utc, r⟩).date.addMonths? amount)) =
      (r.date.addMonths? amount).bind fun date ↦
      covered? .utc (.ofDate date r.secondOfDay r.nano) := by
    simp only [utc_onDate?, utc_wall]
    rfl
  cases unit <;> cases hm
  case months =>
    rw [Int.one_mul]
    exact hon amount
  case quarters => exact hon (3 * amount)
  case years => exact hon (12 * amount)

theorem utc_plus?_millis (h : ¬ r.IsLeapSecond) (amount : Int) :
    (⟨.utc, r⟩ : ZonedTime).plus? amount .millis =
    covered? .utc (.ofNanos (r.toNanos + amount * 1000000)) := by
  change covered? .utc (r.advance (amount * 1000000)) = _
  rw [Reading.advance, if_neg h]

/-- Adding units adds to the number of the period. -/
theorem utc_period_plus? (h : ¬ r.IsLeapSecond) (hu : unit ∈ CalendarUnit.regular) {amount : Int}
    {t : ZonedTime} (ht : (⟨.utc, r⟩ : ZonedTime).plus? amount unit = some t) :
    t.zone = .utc ∧ t.utc.InCalendar ∧ ¬ t.utc.IsLeapSecond ∧
    t.utc.period unit = r.period unit + amount := by
  have hn := Reading.nano_lt h
  have hseconds {length : Int} (hl : unit.seconds? = some length)
      (hp : (r.shift (length * amount)).period unit = r.period unit + amount) :
      t.zone = .utc ∧ t.utc.InCalendar ∧ ¬ t.utc.IsLeapSecond ∧
      t.utc.period unit = r.period unit + amount := by
    rw [utc_plus?_seconds h hl] at ht
    obtain ⟨hc, rfl⟩ := eq_of_covered? ht
    exact ⟨rfl, hc, h, hp⟩
  have hmonths {months : Int} (hm : unit.months? = some months)
      (hp : ∀ r : Reading, r.period unit = r.date.monthIndex / months) (hpos : 0 < months) :
      t.zone = .utc ∧ t.utc.InCalendar ∧ ¬ t.utc.IsLeapSecond ∧
      t.utc.period unit = r.period unit + amount := by
    rw [utc_plus?_months hm] at ht
    obtain ⟨date, hdate, ht⟩ := Option.bind_eq_some_iff.1 ht
    obtain ⟨hc, rfl⟩ := eq_of_covered? ht
    have hb := r.secondOfDay_bounds
    refine ⟨rfl, hc, h, ?_⟩
    rw [hp, hp, Reading.date_ofDate hb.1 hb.2, (Date.monthIndex_of_inMonth? hdate).1,
      Int.add_mul_ediv_left _ _ (by omega)]
  cases unit with
  | nanos | weekBasedYears | eras => exact absurd hu (by decide)
  | millis =>
    rw [utc_plus?_millis h] at ht
    obtain ⟨hc, rfl⟩ := eq_of_covered? ht
    refine ⟨rfl, hc, Reading.not_isLeapSecond_ofNanos _, ?_⟩
    simp only [Reading.period, Reading.ofNanos, Reading.toNanos, Reading.nanosPerSecond]
    omega
  | seconds | minutes | hours | halfDays | days | weeks =>
    refine hseconds rfl ?_
    simp only [Reading.period, Reading.shift, Reading.date, Reading.secondsPerDay]
    omega
  | months => exact hmonths rfl (fun r ↦ (Int.ediv_one _).symm) (by decide)
  | quarters | years => exact hmonths rfl (fun r ↦ rfl) (by decide)

theorem utc_plus?_ofPeriod (hu : unit ∈ CalendarUnit.regular) (number amount : Int) :
    (⟨.utc, .ofPeriod number unit⟩ : ZonedTime).plus? amount unit =
      covered? .utc (.ofPeriod (number + amount) unit) := by
  have hleap := Reading.not_isLeapSecond_ofPeriod number unit
  have hmonths {months : Int} (hm : unit.months? = some months)
      (hp : ∀ n, Reading.ofPeriod n unit = .ofDate (.firstOfMonth (months * n)) 0 0) :
      (⟨.utc, .ofPeriod number unit⟩ : ZonedTime).plus? amount unit =
        covered? .utc (.ofPeriod (number + amount) unit) := by
    rw [utc_plus?_months hm, hp, hp, Reading.date_midnight, Date.addMonths?_firstOfMonth,
      ← Int.mul_add, ← covered?_ofDate, Option.bind_map, Reading.secondOfDay_midnight]
    rfl
  cases unit with
  | nanos | weekBasedYears | eras => exact absurd hu (by decide)
  | millis =>
    rw [utc_plus?_millis hleap]
    congr 1
    simp only [Reading.ofPeriod, Reading.ofNanos, Reading.toNanos, Reading.nanosPerSecond,
      Reading.mk.injEq]
    omega
  | seconds | minutes | hours | halfDays | days | weeks =>
    rw [utc_plus?_seconds hleap rfl]
    congr 1
    simp only [Reading.ofPeriod, Reading.shift, Reading.ofDate, Reading.secondsPerDay,
      Reading.mk.injEq, and_true]
    omega
  | months => exact hmonths rfl (fun n ↦ by rw [Int.one_mul]; rfl)
  | quarters | years => exact hmonths rfl (fun n ↦ rfl)

theorem wholeDayEnd_midnight (start stop : Date) :
    wholeDayEnd (.ofDate start 0 0) (.ofDate stop 0 0) = stop := by
  have hno (a b : Date) : ¬ (Reading.ofDate a 0 0).EarlierInDay (.ofDate b 0 0) := by
    rw [Reading.EarlierInDay, Reading.secondOfDay_midnight, Reading.secondOfDay_midnight]
    exact fun h ↦ h.elim (Int.lt_irrefl 0) (fun h ↦ Nat.lt_irrefl 0 h.2)
  rw [wholeDayEnd, if_neg (fun h ↦ hno _ _ h.2), if_neg (fun h ↦ hno _ _ h.2),
    Reading.date_midnight]

theorem utc_unitsUntil_ofPeriod (hu : unit ∈ CalendarUnit.regular) (start stop : Int) :
    (⟨.utc, .ofPeriod start unit⟩ : ZonedTime).unitsUntil ⟨.utc, .ofPeriod stop unit⟩ unit =
    stop - start := by
  have hlapse := Reading.since_eq (Reading.not_isLeapSecond_ofPeriod stop unit)
    (Reading.not_isLeapSecond_ofPeriod start unit)
  have hnanos {length : Int} (hpos : length ≠ 0)
      (hspan : (Reading.ofPeriod stop unit).toNanos - (Reading.ofPeriod start unit).toNanos =
        (stop - start) * length) :
      ((Reading.ofPeriod stop unit).since (.ofPeriod start unit)).tdiv length = stop - start := by
    rw [hlapse, hspan, Int.mul_tdiv_cancel _ hpos]
  have hdays (a b : Date) :
      wholeDayEnd (ZonedTime.wall ⟨.utc, .ofDate a 0 0⟩) (ZonedTime.wall ⟨.utc, .ofDate b 0 0⟩) =
      b := by
    simp [wholeDayEnd_midnight]
  have hdate (a : Date) : (ZonedTime.wall ⟨.utc, .ofDate a 0 0⟩).date = a := by
    simp
  have hmonths {months : Int} (hpos : months ≠ 0) :
      ((Date.firstOfMonth (months * start)).monthsUntil (.firstOfMonth (months * stop))).tdiv
      months = stop - start := by
    simp [← Int.mul_sub, Int.mul_tdiv_cancel_left _ hpos]
  cases unit with
  | nanos | weekBasedYears | eras => exact absurd hu (by decide)
  | millis | seconds | minutes | hours | halfDays =>
    refine hnanos (by decide) ?_
    simp only [Reading.ofPeriod, Reading.toNanos, Reading.nanosPerSecond]
    omega
  | days =>
    change (wholeDayEnd _ _).epochDay - (Reading.date _).epochDay = _
    rw [Reading.ofPeriod, Reading.ofPeriod, ZonedTime.inZone, hdays, hdate]
  | weeks =>
    change ((wholeDayEnd _ _).epochDay - (Reading.date _).epochDay).tdiv 7 = _
    rw [Reading.ofPeriod, Reading.ofPeriod, ZonedTime.inZone, hdays, hdate,
      show 7 * stop - 3 - (7 * start - 3) = (stop - start) * 7 by
        omega, Int.mul_tdiv_cancel _ (by decide)]
  | months =>
    change (Reading.date _).monthsUntil (wholeDayEnd _ _) = _
    rw [Reading.ofPeriod, Reading.ofPeriod, ZonedTime.inZone, hdays, hdate,
      Date.monthsUntil_firstOfMonth]
  | quarters | years =>
    change ((Reading.date _).monthsUntil (wholeDayEnd _ _)).tdiv _ = _
    rw [Reading.ofPeriod, Reading.ofPeriod, ZonedTime.inZone, hdays, hdate]
    exact hmonths (by decide)

end ZonedTime

end Almanac
