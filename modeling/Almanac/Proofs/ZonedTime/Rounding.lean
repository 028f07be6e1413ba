import Almanac.Proofs.ZonedTime.Attach

namespace Almanac

def CalendarUnit.wholeSecond : List CalendarUnit :=
  [.seconds, .minutes, .hours, .halfDays, .days, .weeks, .months, .quarters, .years,
    .weekBasedYears]

theorem CalendarUnit.not_subsecond {unit : CalendarUnit} (hu : unit ∈ wholeSecond) :
    ¬ (unit = .nanos ∨ unit = .millis) := by
  rintro (rfl | rfl) <;> exact absurd hu (by decide)

namespace Reading

variable {r a b start : Reading} {unit : CalendarUnit}

theorem ofDate_le_iff {d : Date} : ofDate d 0 0 ≤ r ↔ d.epochDay ≤ r.date.epochDay := by
  rw [le_iff_second_le rfl]
  change d.epochDay * 86400 + 0 ≤ r.second ↔ d.epochDay ≤ r.second / 86400
  omega

theorem ofPeriod_le_iff {number : Int} (hu : unit ∈ CalendarUnit.wholeSecond) :
    ofPeriod number unit ≤ r ↔ number ≤ r.period unit := by
  have hsecond (second : Int) : (⟨second, 0⟩ : Reading) ≤ r ↔ second ≤ r.second :=
    le_iff_second_le rfl
  cases unit with
  | nanos | millis | eras => exact absurd hu (by decide)
  | seconds => exact hsecond number
  | minutes | hours | halfDays =>
    rw [ofPeriod, hsecond, period]
    omega
  | days => exact ofDate_le_iff
  | weeks =>
    rw [ofPeriod, ofDate_le_iff, period]
    simp only
    omega
  | months => exact ofDate_le_iff.trans Date.firstOfMonth_le_iff
  | quarters | years =>
    rw [ofPeriod, ofDate_le_iff, Date.firstOfMonth_le_iff, period]
    omega
  | weekBasedYears => exact ofDate_le_iff.trans Date.weekYearStart_le_iff

theorem period_ofPeriod (number : Int) (hu : unit ∈ CalendarUnit.wholeSecond) :
    (ofPeriod number unit).period unit = number := by
  cases unit with
  | nanos | millis | eras => exact absurd hu (by decide)
  | seconds => rfl
  | minutes | hours | halfDays =>
    simp only [ofPeriod, period]
    omega
  | days => simp only [ofPeriod, period, date_midnight]
  | weeks =>
    simp only [ofPeriod, period, date_midnight]
    omega
  | months => simp only [ofPeriod, period, date_midnight, Date.monthIndex_firstOfMonth]
  | quarters | years =>
    simp only [ofPeriod, period, date_midnight, Date.monthIndex_firstOfMonth]
    omega
  | weekBasedYears =>
    simp [ofPeriod, period]

theorem nano_ofPeriod (number : Int) (hu : unit ∈ CalendarUnit.wholeSecond) :
    (ofPeriod number unit).nano = 0 := by
  cases unit with
  | nanos | millis | eras => exact absurd hu (by decide)
  | _ => rfl

theorem period_le_of_wholeSecond (hu : unit ∈ CalendarUnit.wholeSecond) (h : a ≤ b) :
    a.period unit ≤ b.period unit := by
  have hstart : ofPeriod (a.period unit) unit ≤ a := (ofPeriod_le_iff hu).2 (Int.le_refl _)
  rw [le_iff_second_le (nano_ofPeriod _ hu)] at hstart
  rw [← ofPeriod_le_iff hu, le_iff_second_le (nano_ofPeriod _ hu)]
  exact Int.le_trans hstart (second_le h)

theorem not_isLeapSecond_of_eq_ofPeriod {number : Int} (h : r = ofPeriod number unit) :
    ¬ r.IsLeapSecond := by
  rw [h]
  exact not_isLeapSecond_ofPeriod number unit

theorem floor?_congr (hu : unit ∈ CalendarUnit.wholeSecond) (h : a.period unit = b.period unit) :
    a.floor? unit = b.floor? unit := by
  have hno := CalendarUnit.not_subsecond hu
  rw [floor?_eq_ofPeriod (absurd · hno), floor?_eq_ofPeriod (absurd · hno), h]

theorem eq_ofPeriod_of_floor? (hu : unit ∈ CalendarUnit.wholeSecond)
    (h : r.floor? unit = some start) :
    start = ofPeriod (r.period unit) unit := by
  rw [floor?_eq_ofPeriod (absurd · (CalendarUnit.not_subsecond hu))] at h
  split at h
  · exact (Option.some.inj h).symm
  · unfold covered? at h
    split at h
    · exact (Option.some.inj h).symm
    · cases h

theorem floor?_of_wholeSecond (hu : unit ∈ CalendarUnit.wholeSecond)
    (h : r.floor? unit = some start) :
    start ≤ r ∧ start.floor? unit = some start ∧ start = ofPeriod (start.period unit) unit := by
  have hstart := eq_ofPeriod_of_floor? hu h
  have hperiod : start.period unit = r.period unit := by rw [hstart, period_ofPeriod _ hu]
  refine ⟨?_, (floor?_congr hu hperiod).trans h, by rw [hperiod]; exact hstart⟩
  rw [hstart]
  exact (ofPeriod_le_iff hu).2 (Int.le_refl _)

/-- The start of a period has passed, and it is floored to itself. It lies in the second of the
reading at hand, if it is not the start of a numbered period. -/
theorem floor?_cases (hu : unit ≠ .eras) (h : r.floor? unit = some start) :
    start ≤ r ∧ start.floor? unit = some start ∧
      (start.second = r.second ∨
        unit ∈ CalendarUnit.wholeSecond ∧ start = ofPeriod (start.period unit) unit) := by
  cases unit with
  | eras => exact absurd rfl hu
  | nanos =>
    obtain rfl : r = start := (ofDate_date r).symm.trans (Option.some.inj h)
    exact ⟨.inr ⟨rfl, Nat.le_refl _⟩, h, .inl rfl⟩
  | millis =>
    have hwhole (nano : Nat) : (⟨r.second, nano⟩ : Reading).floor? .millis =
        some ⟨r.second, nano / 1000000 * 1000000⟩ :=
      congrArg some (ofDate_date ⟨r.second, nano / 1000000 * 1000000⟩)
    obtain rfl := Option.some.inj ((hwhole r.nano).symm.trans h)
    refine ⟨.inr ⟨rfl, Nat.div_mul_le_self _ _⟩, ?_, .inl rfl⟩
    rw [hwhole, Nat.mul_div_cancel _ (by decide)]
  | _ =>
    obtain ⟨hle, hself, hstart⟩ := floor?_of_wholeSecond (by decide) h
    exact ⟨hle, hself, .inr ⟨by decide, hstart⟩⟩

end Reading

namespace ZonedTime

variable {t r : ZonedTime} {unit : CalendarUnit} {wall start other : Reading} {gap : Gap}

theorem eq_of_reattach?_skipped (hz : t.zone.WellSpaced) (hg : t.zone.gap? wall.second = some gap)
    (hl : ¬ wall.IsLeapSecond) (h : t.reattach? wall = some r) :
    r = ⟨t.zone, wall.shift (-gap.before)⟩ ∧ r.utc.InCalendar ∧ r.wall = wall.shift gap.length := by
  rw [reattach?, Zone.attach?_of_gap? hz hg hl] at h
  obtain ⟨-, -, h⟩ := Option.bind_eq_some_iff.1 h
  obtain ⟨hc, rfl⟩ := eq_of_covered? h
  exact ⟨rfl, hc, Zone.wall_of_gap? hz hg⟩

theorem le_shift_of_gap? (hg : t.zone.gap? start.second = some gap) :
    start ≤ start.shift gap.length := by
  obtain ⟨-, hlow, hhigh⟩ := Zone.gapFrom_bounds hg
  unfold Gap.start at hlow
  unfold Gap.stop at hhigh
  left
  simp only [Reading.shift, Gap.length]
  omega

theorem floor_of_shown (hz : t.zone.Regular) (ht : t.utc.InCalendar) (hu : unit ≠ .eras)
    (hs : t.wall.floor? unit = some start) (hg : t.zone.gap? start.second = none)
    (hr : t.reattach? start = some r) :
    r.utc ≤ t.utc ∧ r.floor? unit = some r := by
  obtain ⟨hle, hself, hcase⟩ := Reading.floor?_cases hu hs
  have hleap : start.second = t.wall.second ∨ ¬ start.IsLeapSecond :=
    hcase.imp_right fun h ↦ Reading.not_isLeapSecond_of_eq_ofPeriod h.2
  obtain ⟨hzone, hc, hwall, hpast⟩ := reattach?_of_passed hz ht hle hleap hg hr
  rw [← hzone] at hz
  refine ⟨hpast, ?_⟩
  have hback := reattach?_wall hz hc
  rw [hwall] at hback
  rw [floor?_eq_of_regular fun _ ↦ ⟨hz, hc⟩, hwall, hself]
  exact hback

/-- Behind the start of a period in a gap, the gap is over when the clock comes to a reading
again. -/
theorem stop_le_wall (hz : t.zone.WellSpaced) (hg : t.zone.gap? start.second = some gap)
    (hle : start.second ≤ t.wall.second) : gap.stop ≤ t.wall.second := by
  by_contra hlt
  obtain ⟨hbefore, hafter, hstart, hstop⟩ := hz.gap_spec hg
  have hnone := gap?_wall_eq_none hz
  unfold Gap.stop at hlt
  have hin := Zone.gapFrom_behind hz.2.2 hg hle (by omega)
  rw [if_pos (by unfold Gap.stop; omega)] at hin
  exact absurd (hin.symm.trans hnone) (Option.some_ne_none gap)

theorem gap?_of_floor?_shift (hz : t.zone.WellSpaced) (hu : unit ∈ CalendarUnit.wholeSecond)
    (hn : start = .ofPeriod (start.period unit) unit) (hg : t.zone.gap? start.second = some gap)
    (hs : (start.shift gap.length).floor? unit = some other) :
    t.zone.gap? other.second = if other.second < gap.stop then some gap else none := by
  obtain ⟨hbefore, hafter, hlow, hhigh⟩ := hz.gap_spec hg
  obtain ⟨hle, -, -⟩ := Reading.floor?_of_wholeSecond hu hs
  have hforward := le_shift_of_gap? hg
  have hbehind : start ≤ other := by
    rw [hn, Reading.ofPeriod_le_iff hu, Reading.eq_ofPeriod_of_floor? hu hs,
      Reading.period_ofPeriod _ hu]
    exact Reading.period_le (Reading.not_isLeapSecond_of_eq_ofPeriod hn) hforward unit
  have hfar : other.second ≤ start.second + gap.length := Reading.second_le hle
  exact Zone.gapFrom_behind hz.2.2 hg (Reading.second_le hbehind)
    (by unfold Gap.length at hfar; omega)

/-- A period whose start the clock skips: flooring its moved start comes back to it only if that
lies in the same period or starts another. -/
theorem floor?_of_skipped (hz : t.zone.Regular) (hu : unit ∈ CalendarUnit.wholeSecond)
    (hn : start = .ofPeriod (start.period unit) unit)
    (hg : t.zone.gap? start.second = some gap) (hr : t.reattach? start = some r) :
    r.floor? unit = some r ↔ (start.shift gap.length).floor? unit = some start ∨
      (start.shift gap.length).floor? unit = some (start.shift gap.length) := by
  have hspaced := hz.wellSpaced
  have hleap := Reading.not_isLeapSecond_of_eq_ofPeriod hn
  obtain ⟨he, hc, hwall⟩ := eq_of_reattach?_skipped hspaced hg hleap hr
  have hzone : r.zone = t.zone := by rw [he]
  have hback := reattach?_wall (hzone ▸ hz) hc
  have hfloor : r.floor? unit = ((start.shift gap.length).floor? unit).bind r.reattach? := by
    rw [floor?_eq_of_regular fun _ ↦ ⟨hzone ▸ hz, hc⟩, hwall]
  rw [hfloor]
  refine ⟨fun h ↦ ?_, fun h ↦ ?_⟩
  · -- The second floor lies in the same gap as the first, or its reading is shown.
    obtain ⟨other, hother, hr'⟩ := Option.bind_eq_some_iff.1 h
    rw [hother]
    obtain ⟨hle, -, -⟩ := Reading.floor?_of_wholeSecond hu hother
    have hgap := gap?_of_floor?_shift hspaced hu hn hg hother
    have hleap' := Reading.not_isLeapSecond_of_eq_ofPeriod (Reading.eq_ofPeriod_of_floor? hu hother)
    rw [← hzone] at hgap hspaced hz
    split at hgap
    · left
      have he' := congrArg ZonedTime.utc
        ((eq_of_reattach?_skipped hspaced hgap hleap' hr').1.symm.trans he)
      have hsame := congrArg (Reading.shift · gap.before) he'
      simp only [Reading.shift_shift, Int.add_left_neg, Reading.shift_zero] at hsame
      rw [hsame]
    · right
      rw [← hwall] at hle ⊢
      rw [(reattach?_of_passed hz hc hle (.inr hleap') hgap hr').2.2.1]
  · rcases h with h | h
    · rw [h]
      change r.reattach? start = some r
      rw [reattach?, hzone, Zone.attach?_of_gap? hspaced hg hleap,
        ← Zone.attach?_of_gap? hspaced hg hleap (some t.offset)]
      exact hr
    · rw [h, ← hwall]
      exact hback

/-- Where the gap starts with the period, the clock has left it by now, and its end lies in the same
period. -/
theorem floor?_shift_of_first (hz : t.zone.WellSpaced) (hu : unit ∈ CalendarUnit.wholeSecond)
    (hs : t.wall.floor? unit = some start) (hg : t.zone.gap? start.second = some gap)
    (hfirst : start.second = gap.start) : (start.shift gap.length).floor? unit = some start := by
  obtain ⟨hle, hself, hn⟩ := Reading.floor?_of_wholeSecond hu hs
  have hleap := Reading.not_isLeapSecond_of_eq_ofPeriod hn
  have hnano : (start.shift gap.length).nano = 0 := by
    change start.nano = 0
    rw [hn, Reading.nano_ofPeriod _ hu]
  have hstop := stop_le_wall hz hg (Reading.second_le hle)
  have hforward := le_shift_of_gap? hg
  have hback : start.shift gap.length ≤ t.wall := by
    rw [Reading.le_iff_second_le hnano]
    simp only [Reading.shift, hfirst, Gap.start, Gap.length, Gap.stop] at hstop ⊢
    omega
  have h₁ := Reading.period_le hleap hforward unit
  have h₂ := Reading.period_le (show ¬ (start.shift gap.length).IsLeapSecond from hleap) hback unit
  have hperiod : start.period unit = t.wall.period unit := by
    rw [Reading.eq_ofPeriod_of_floor? hu hs, Reading.period_ofPeriod _ hu]
  rw [← hself]
  exact Reading.floor?_congr hu (by omega)

/-- Where the clock shows the start of a period, or skips it together with the very start of the
gap, flooring goes back in time and is idempotent. Else it goes forward exactly if the start lies
further inside the gap than the instant at hand behind it, and it is idempotent exactly if the moved
start stays in its period or starts another. -/
theorem floor_across_gap (hz : t.zone.Regular) (ht : t.utc.InCalendar) (hu : unit ≠ .eras)
    (hr : t.floor? unit = some r) :
    ∃ start, t.wall.floor? unit = some start ∧
      (r.utc ≤ t.utc ↔ ∀ gap, t.zone.gap? start.second = some gap →
        start.second - gap.start ≤ t.utc.second - gap.change.since) ∧
      (r.floor? unit = some r ↔ ∀ gap, t.zone.gap? start.second = some gap →
        (start.shift gap.length).floor? unit = some start ∨
          (start.shift gap.length).floor? unit = some (start.shift gap.length)) ∧
      ((∀ gap, t.zone.gap? start.second = some gap → start.second = gap.start) →
        r.utc ≤ t.utc ∧ r.floor? unit = some r) := by
  have hspaced := hz.wellSpaced
  rw [floor?_eq_of_regular fun _ ↦ ⟨hz, ht⟩] at hr
  obtain ⟨start, hs, hr⟩ := Option.bind_eq_some_iff.1 hr
  refine ⟨start, hs, ?_⟩
  cases hg : t.zone.gap? start.second with
  | none =>
    obtain ⟨hpast, hself⟩ := floor_of_shown hz ht hu hs hg hr
    have hno (P : Gap → Prop) (gap : Gap) (h : none = some gap) : P gap := nomatch h
    exact ⟨⟨fun _ ↦ hno _, fun _ ↦ hpast⟩, ⟨fun _ ↦ hno _, fun _ ↦ hself⟩, fun _ ↦ ⟨hpast, hself⟩⟩
  | some gap =>
    obtain ⟨hle, -, hsecond | ⟨hu', hn⟩⟩ := Reading.floor?_cases hu hs
    · rw [hsecond, gap?_wall_eq_none hspaced] at hg
      cases hg
    have hleap := Reading.not_isLeapSecond_of_eq_ofPeriod hn
    have hnano (seconds : Int) : (start.shift seconds).nano = 0 := by
      change start.nano = 0
      rw [hn, Reading.nano_ofPeriod _ hu']
    obtain ⟨he, -, -⟩ := eq_of_reattach?_skipped hspaced hg hleap hr
    have hpast : r.utc ≤ t.utc ↔ start.second - gap.start ≤ t.utc.second - gap.change.since := by
      rw [he, Reading.le_iff_second_le (hnano _), Gap.start]
      simp only [Reading.shift]
      omega
    have hself := floor?_of_skipped hz hu' hn hg hr
    simp only [Option.some.injEq, forall_eq']
    refine ⟨hpast, hself, fun hfirst ↦ ⟨hpast.2 ?_, hself.2 (.inl ?_)⟩⟩
    · have hbehind := Zone.since_le_of_passed (Reading.second_le hle) hg
      omega
    · exact floor?_shift_of_first hspaced hu' hs hg hfirst

theorem floor_hour_across_gap :
    let t : ZonedTime := ⟨.africaMonrovia, ⟨63593080, 0⟩⟩
    let r : ZonedTime := ⟨.africaMonrovia, ⟨63593070, 0⟩⟩
    t.floor? .hours = some r ∧ r.utc ≤ t.utc ∧ r.floor? .hours = some r := by
  intro t r
  have hr : t.floor? .hours = some r := by decide
  obtain ⟨start, hs, -, -, hfirst⟩ :=
    @floor_across_gap t r .hours (by decide) (by decide) (by decide) hr
  obtain rfl : (⟨63590400, 0⟩ : Reading) = start := Option.some.inj hs
  refine ⟨hr, hfirst fun gap hg ↦ ?_⟩
  obtain rfl : (⟨-2670, ⟨63593070, 0⟩⟩ : Gap) = gap := Option.some.inj hg
  rfl

/-- Flooring does not always go back in time: the minute 00:44 of that day has begun inside the
gap. -/
theorem floor_not_always_back :
    ¬ ∀ (t r : ZonedTime) (unit : CalendarUnit),
    t.zone ∈ Zone.table → t.utc.InCalendar → unit ≠ .eras →
      t.floor? unit = some r → r.utc ≤ t.utc ∧ r.floor? unit = some r := by
  intro h
  have hmem : Zone.africaMonrovia ∈ Zone.table := by simp [Zone.table]
  obtain ⟨hpast, -⟩ :=
    h ⟨.africaMonrovia, ⟨63593080, 0⟩⟩ ⟨.africaMonrovia, ⟨63595710, 0⟩⟩ .minutes hmem (by decide)
      (by decide) (by decide)
  revert hpast
  decide

end ZonedTime

end Almanac
