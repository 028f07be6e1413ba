import Almanac.Proofs.ZonedTime.Rounding

namespace Almanac

def CalendarUnit.hourParts : List CalendarUnit := [.seconds, .minutes, .hours]

theorem CalendarUnit.wholeSecond_of_hourParts {unit : CalendarUnit} (hu : unit ∈ hourParts) :
    unit ∈ wholeSecond := by
  have hall : ∀ unit ∈ hourParts, unit ∈ wholeSecond := by decide
  exact hall unit hu

namespace Reading

variable {a b r : Reading} {unit : CalendarUnit}

theorem hour_eq_of_period_eq (hu : unit ∈ CalendarUnit.hourParts)
    (h : a.period unit = b.period unit) :
    a.second / 3600 = b.second / 3600 := by
  simp only [CalendarUnit.hourParts, List.mem_cons, List.not_mem_nil, or_false] at hu
  rcases hu with rfl | rfl | rfl <;> simp only [period] at h <;> omega

theorem period_shift_eq {seconds : Int} (hu : unit ∈ CalendarUnit.hourParts) (hs : 3600 ∣ seconds)
    (h : a.period unit = b.period unit) :
    (a.shift seconds).period unit = (b.shift seconds).period unit := by
  simp only [CalendarUnit.hourParts, List.mem_cons, List.not_mem_nil, or_false] at hu
  rcases hu with rfl | rfl | rfl <;> simp only [period, shift] at h ⊢ <;> omega

theorem ofPeriod_shift {seconds : Int} (hu : unit ∈ CalendarUnit.hourParts) (hs : 3600 ∣ seconds)
    (r : Reading) :
    ofPeriod ((r.shift seconds).period unit) unit =
    (ofPeriod (r.period unit) unit).shift seconds := by
  simp only [CalendarUnit.hourParts, List.mem_cons, List.not_mem_nil, or_false] at hu
  rcases hu with rfl | rfl | rfl <;>
    simp only [ofPeriod, period, shift, mk.injEq, and_true] <;> omega

theorem period_le_of_le (hu : unit ∈ CalendarUnit.hourParts) (h : a ≤ b) :
    a.period unit ≤ b.period unit :=
  period_le_of_wholeSecond (CalendarUnit.wholeSecond_of_hourParts hu) h

theorem inCalendar_of_period (hu : unit ∈ CalendarUnit.hourParts) (ha : a.InCalendar)
    (hb : b.InCalendar) (hl : a.period unit ≤ r.period unit) (hr : r.period unit ≤ b.period unit) :
    r.InCalendar := by
  obtain ⟨hstart, -⟩ := ha
  obtain ⟨-, hend⟩ := hb
  simp only [CalendarUnit.hourParts, List.mem_cons, List.not_mem_nil, or_false] at hu
  simp only [date, secondsPerDay] at hstart hend
  rw [InCalendar, date, secondsPerDay, Date.InCalendar]
  rcases hu with rfl | rfl | rfl <;> simp only [period] at hl hr ⊢ <;> omega

theorem inCalendar_of_period_eq (hu : unit ∈ CalendarUnit.hourParts) (ha : a.InCalendar)
    (h : r.period unit = a.period unit) : r.InCalendar :=
  inCalendar_of_period hu ha ha (Int.le_of_eq h.symm) (Int.le_of_eq h)

/-- Each period from that of one instant to that of another holds an instant between the two. -/
theorem exists_between_of_period (hu : unit ∈ CalendarUnit.hourParts) (hab : a ≤ b)
    (ha : a.period unit ≤ r.period unit) (hb : r.period unit ≤ b.period unit) :
    ∃ s, a ≤ s ∧ s ≤ b ∧ s.period unit = r.period unit := by
  have hwhole := CalendarUnit.wholeSecond_of_hourParts hu
  rcases Int.lt_or_eq_of_le ha with hlt | heq
  · refine ⟨ofPeriod (r.period unit) unit, .inl ?_, (ofPeriod_le_iff hwhole).2 hb,
      period_ofPeriod _ hwhole⟩
    simp only [CalendarUnit.hourParts, List.mem_cons, List.not_mem_nil, or_false] at hu
    rcases hu with rfl | rfl | rfl <;> simp only [period, ofPeriod] at hlt ⊢ <;> omega
  · exact ⟨a, .inr ⟨rfl, Nat.le_refl _⟩, hab, heq⟩

end Reading

namespace Zone

variable {zone : Zone} {current : Int} {changes : List OffsetChange}

/-- All offsets and all changes are on whole hours. -/
structure WholeHours (zone : Zone) : Prop where
  first : 3600 ∣ zone.first
  changes : ∀ change ∈ zone.changes, 3600 ∣ change.since ∧ 3600 ∣ change.offset

instance (zone : Zone) : Decidable zone.WholeHours :=
  decidable_of_iff (3600 ∣ zone.first ∧
    ∀ change ∈ zone.changes, 3600 ∣ change.since ∧ 3600 ∣ change.offset)
    ⟨fun h ↦ ⟨h.1, h.2⟩, fun h ↦ ⟨h.first, h.changes⟩⟩

theorem offsetFrom_dvd (hc : 3600 ∣ current)
    (h : ∀ change ∈ changes, 3600 ∣ change.since ∧ 3600 ∣ change.offset) (second : Int) :
    3600 ∣ offsetFrom current changes second := by
  induction changes generalizing current with
  | nil => exact hc
  | cons change rest ih =>
    rw [offsetFrom]
    split
    · exact ih (h change List.mem_cons_self).2 fun other hm ↦ h other (List.mem_cons_of_mem _ hm)
    · exact hc

theorem offsetFrom_eq_of_hour_eq
    (h : ∀ change ∈ changes, 3600 ∣ change.since ∧ 3600 ∣ change.offset) {a b : Int}
    (hab : a / 3600 = b / 3600) : offsetFrom current changes a = offsetFrom current changes b := by
  induction changes generalizing current with
  | nil => rfl
  | cons change rest ih =>
    have hsince : change.since ≤ a ↔ change.since ≤ b := by
      have := (h change List.mem_cons_self).1
      omega
    rw [offsetFrom, offsetFrom, ih fun other hm ↦ h other (List.mem_cons_of_mem _ hm)]
    simp only [hsince]

theorem WholeHours.dvd_offsetAt (h : zone.WholeHours) (second : Int) :
    3600 ∣ zone.offsetAt second :=
  offsetFrom_dvd h.first h.changes second

end Zone

namespace ZonedTime

variable {a b t : ZonedTime} {unit : CalendarUnit}

theorem offset_eq_of_period_eq (hw : a.zone.WholeHours) (hz : b.zone = a.zone)
    (hu : unit ∈ CalendarUnit.hourParts)
    (h : a.utc.period unit = b.utc.period unit) : a.offset = b.offset := by
  rw [offset, offset, hz]
  exact Zone.offsetFrom_eq_of_hour_eq hw.changes (Reading.hour_eq_of_period_eq hu h)

/-- Instants of one period of UTC lie in one period on the wall clock. -/
theorem wall_period_eq (hw : a.zone.WholeHours) (hz : b.zone = a.zone)
    (hu : unit ∈ CalendarUnit.hourParts)
    (h : a.utc.period unit = b.utc.period unit) : a.wall.period unit = b.wall.period unit := by
  rw [wall, wall, ← offset_eq_of_period_eq hw hz hu h]
  exact Reading.period_shift_eq hu (hw.dvd_offsetAt _) h

theorem wall_inCalendar_iff_of_period_eq (hw : a.zone.WholeHours) (hz : b.zone = a.zone)
    (hu : unit ∈ CalendarUnit.hourParts) (h : a.utc.period unit = b.utc.period unit) :
    a.wall.InCalendar ↔ b.wall.InCalendar := by
  have hperiod := wall_period_eq hw hz hu h
  exact ⟨fun ha ↦ Reading.inCalendar_of_period_eq hu ha hperiod.symm,
    fun hb ↦ Reading.inCalendar_of_period_eq hu hb hperiod⟩

/-- An instant is floored to the start of its period on the clock of UTC. Only within two days of
the first instant of the calendar may the clock of a zone keep it from a floor. -/
theorem floor?_of_wholeHours (hz : t.zone.WellSpaced) (hw : t.zone.WholeHours)
    (hu : unit ∈ CalendarUnit.hourParts) (hc : t.utc.InCalendar) :
    t.floor? unit = some ⟨t.zone, .ofPeriod (t.utc.period unit) unit⟩ ∨
      t.floor? unit = none ∧ ¬ t.zone.Regular ∧ ¬ (t.utc.shift (-172800)).InCalendar := by
  have hwhole := CalendarUnit.wholeSecond_of_hourParts hu
  have hno := CalendarUnit.not_subsecond hwhole
  have htime : unit.isTimeBased ∨ unit = .days := by
    have hall : ∀ unit ∈ CalendarUnit.hourParts, unit.isTimeBased := by decide
    exact .inl (hall unit hu)
  have hperiod := Reading.period_ofPeriod (t.utc.period unit) hwhole
  let floor : ZonedTime := ⟨t.zone, .ofPeriod (t.utc.period unit) unit⟩
  have hoffset : floor.offset = t.offset := offset_eq_of_period_eq hw rfl hu hperiod
  have hwall : floor.wall = floor.utc.shift t.offset := by rw [wall, hoffset]
  have hback : floor.wall.shift (-t.offset) = floor.utc := by
    rw [← hoffset, shift_wall]
  have hdvd : 3600 ∣ t.offset := hw.dvd_offsetAt _
  have hfloor : t.floor? unit = t.zone.attach? floor.wall (some t.offset) := by
    rw [floor?_eq t fun h ↦ hno (.inl h), Reading.floor?_eq_ofPeriod (absurd · hno), if_pos htime,
      wall, Reading.ofPeriod_shift hu hdvd, Option.bind_some, hwall]
    rfl
  have hin : floor.utc.InCalendar := Reading.inCalendar_of_period_eq hu hc hperiod
  have hforce : t.zone.offsetAt (floor.wall.second - t.offset) = t.offset := by
    rw [← hoffset]
    exact congrArg t.zone.offsetAt (Int.add_sub_cancel _ _)
  have hleap : ¬ floor.wall.IsLeapSecond := Reading.not_isLeapSecond_ofPeriod _ unit
  have hcases := hz.attach?_of_inForce hleap (hback.symm ▸ hin) hforce
  rw [hback, ← hfloor] at hcases
  rcases hcases with hsome | ⟨hnone, hregular, hearly⟩
  · exact .inl hsome
  · refine .inr ⟨hnone, hregular, fun hday ↦ hearly ?_⟩
    exact Reading.inCalendar_of_period_eq hu hday (Reading.period_shift_eq hu (by decide) hperiod)

theorem exists_plus?_of_hourParts (hu : unit ∈ CalendarUnit.hourParts) (hl : ¬ t.utc.IsLeapSecond)
    (amount : Int) :
    ∃ r : Reading, t.plus? amount unit = covered? t.zone r ∧
    r.period unit = t.utc.period unit + amount := by
  have hadvance (n : Int) : t.utc.advance (amount * (n * Reading.nanosPerSecond)) =
      t.utc.shift (amount * n) := by
    rw [← Int.mul_assoc, Reading.advance_seconds hl]
  simp only [CalendarUnit.hourParts, List.mem_cons, List.not_mem_nil, or_false] at hu
  rcases hu with rfl | rfl | rfl
  · exact ⟨t.utc.shift amount, congrArg (covered? t.zone) (Reading.advance_seconds hl amount), rfl⟩
  · refine ⟨t.utc.shift (amount * 60), congrArg (covered? t.zone) (hadvance 60), ?_⟩
    simp only [Reading.period, Reading.shift]
    omega
  · refine ⟨t.utc.shift (amount * 3600), congrArg (covered? t.zone) (hadvance 3600), ?_⟩
    simp only [Reading.period, Reading.shift]
    omega

theorem unitsUntil_ofPeriod (hu : unit ∈ CalendarUnit.hourParts) (zone : Zone) (start stop : Int) :
    (⟨zone, .ofPeriod start unit⟩ : ZonedTime).unitsUntil ⟨zone, .ofPeriod stop unit⟩ unit =
    stop - start := by
  simp only [CalendarUnit.hourParts, List.mem_cons, List.not_mem_nil, or_false] at hu
  -- Units of elapsed time are counted without a look at the zone.
  rcases hu with rfl | rfl | rfl
  · exact @utc_unitsUntil_ofPeriod .seconds (by decide) start stop
  · exact @utc_unitsUntil_ofPeriod .minutes (by decide) start stop
  · exact @utc_unitsUntil_ofPeriod .hours (by decide) start stop

end ZonedTime

end Almanac
