import Almanac.Proofs.Zone.Gap
import Almanac.Proofs.ZonedTime.Period

namespace Almanac

namespace Zone

variable {zone : Zone} {wall : Reading} {gap : Gap} {preferred : Option Int} {r t : ZonedTime}
  {offset : Int}

theorem pushForward?_eq (hl : ¬ wall.IsLeapSecond) :
    zone.pushForward? wall = (wall.shift (-86400)).covered?.bind fun _ ↦
      ZonedTime.covered? zone (wall.shift (-zone.offsetAt (wall.second + -86400))) := by
  have hback (seconds : Int) : wall.advance (-(seconds * Reading.nanosPerSecond)) =
      wall.shift (-seconds) := by
    rw [← Int.neg_mul, Reading.advance_seconds hl]
  unfold pushForward?
  rw [show Reading.secondsPerDay * Reading.nanosPerSecond = 86400 * Reading.nanosPerSecond
    from rfl, hback]
  by_cases hc : (wall.shift (-86400)).InCalendar
  · rw [Reading.covered?, if_pos hc]
    exact congrArg (ZonedTime.covered? zone) (hback _)
  · rw [Reading.covered?, if_neg hc]
    rfl

theorem attach?_of_gap? (hz : zone.WellSpaced) (hg : zone.gap? wall.second = some gap)
    (hl : ¬ wall.IsLeapSecond) (preferred : Option Int) :
    zone.attach? wall preferred = (wall.shift (-86400)).covered?.bind fun _ ↦
      ZonedTime.covered? zone (wall.shift (-gap.before)) := by
  obtain ⟨hbefore, hafter, hstart, hstop⟩ := hz.gap_spec hg
  have hgap : zone.wallOffsets wall.second = .gap := by
    by_contra h
    rw [gap?_eq_none_iff.2 h] at hg
    cases hg
  have hoffset : zone.offsetAt (wall.second + -86400) = gap.before :=
    (offsetFrom_near_gap hz.2.2 hg).1 (by omega) (by omega)
  unfold attach?
  rw [hgap, ← hoffset]
  exact pushForward?_eq hl

theorem offset_of_gap? (hz : zone.WellSpaced) (hg : zone.gap? wall.second = some gap) :
    (⟨zone, wall.shift (-gap.before)⟩ : ZonedTime).offset = gap.change.offset := by
  obtain ⟨hbefore, hafter, hstart, hstop⟩ := hz.gap_spec hg
  exact (offsetFrom_near_gap hz.2.2 hg).2 (by simp only [Reading.shift]; omega)
    (by simp only [Reading.shift]; omega)

theorem wall_of_gap? (hz : zone.WellSpaced) (hg : zone.gap? wall.second = some gap) :
    (⟨zone, wall.shift (-gap.before)⟩ : ZonedTime).wall = wall.shift gap.length := by
  rw [ZonedTime.wall, offset_of_gap? hz hg, Reading.shift_shift, Gap.length]
  congr 1
  omega

theorem wall_of_shows (hz : zone.WellSpaced) (hs : (zone.wallOffsets wall.second).Shows offset) :
    (⟨zone, wall.shift (-offset)⟩ : ZonedTime).wall = wall := by
  obtain ⟨hfirst, hoffsets, hspaced⟩ := hz
  have hoffset : (⟨zone, wall.shift (-offset)⟩ : ZonedTime).offset = offset :=
    offsetFrom_of_shows hfirst hoffsets hspaced hs
  rw [ZonedTime.wall, hoffset, Reading.shift_shift, Int.add_left_neg, Reading.shift_zero]

theorem attach?_of_once (h : zone.wallOffsets wall.second = .once offset)
    (hc : (wall.shift (-offset)).InCalendar)
    (preferred : Option Int) : zone.attach? wall preferred = some ⟨zone, wall.shift (-offset)⟩ := by
  unfold attach?
  rw [h]
  change (ZonedTime.covered? zone (wall.shift (-offset))).or _ = _
  rw [covered?_eq hc, Option.some_or]

/-- Beyond the ends of the calendar, the offset of a day before is no help. -/
theorem attach?_of_uncovered (hz : zone.Regular) (h : zone.wallOffsets wall.second = .once offset)
    (hl : ¬ wall.IsLeapSecond) (hc : ¬ (wall.shift (-offset)).InCalendar) (preferred : Option Int) :
    zone.attach? wall preferred = none := by
  have hs : (zone.wallOffsets wall.second).Shows offset := by
    rw [h]
    rfl
  have hb := hz.wellSpaced.shows_bounds hs
  have hnone : ZonedTime.covered? zone (wall.shift (-offset)) = none := by
    rw [ZonedTime.covered?, Reading.covered?, if_neg hc]
    rfl
  unfold attach?
  simp only [h]
  rw [hnone, Option.none_or, pushForward?_eq hl, Option.bind_eq_none_iff]
  intro dayBefore hday
  -- Only behind the end of the calendar can the day before lie in it, and there the offset does not
  -- change.
  obtain ⟨hlower, hupper⟩ : (wall.shift (-86400)).InCalendar := by
    by_contra hout
    rw [Reading.covered?, if_neg hout] at hday
    cases hday
  have hbehind : ∀ change ∈ zone.changes, change.since + 172800 ≤ wall.second - offset := by
    intro change hmem
    obtain ⟨-, -, hend⟩ := hz.covered change hmem
    by_contra hlt
    refine hc ⟨?_, ?_⟩
    all_goals
      simp only [Reading.date, Reading.shift, Reading.secondsPerDay] at hlower hupper hend ⊢
      omega
  have hoffset : zone.offsetAt (wall.second + -86400) = offset := by
    rw [← offsetFrom_of_shows hz.wellSpaced.1 hz.wellSpaced.2.1 hz.wellSpaced.2.2 hs]
    apply offsetFrom_of_passed
    all_goals
      intro change hmem
      have := hbehind change hmem
      omega
  rw [hoffset, hnone]

theorem attach?_of_twice {earlier later : Int}
    (h : zone.wallOffsets wall.second = .twice earlier later)
    (hc : (wall.shift (-earlier)).InCalendar) (hc' : (wall.shift (-later)).InCalendar)
    (preferred : Option Int) :
    zone.attach? wall preferred =
      some ⟨zone, wall.shift (-(if preferred = some later then later else earlier))⟩ := by
  unfold attach?
  rw [h]
  exact if_pos ⟨hc, hc'⟩

theorem attach?_of_not_both {earlier later : Int}
    (h : zone.wallOffsets wall.second = .twice earlier later)
    (hc : ¬ ((wall.shift (-earlier)).InCalendar ∧ (wall.shift (-later)).InCalendar))
    (preferred : Option Int) :
    zone.attach? wall preferred = zone.pushForward? wall := by
  unfold attach?
  rw [h]
  exact if_neg hc

/-- A reading goes back to an instant by the offset in force there, if that is preferred. Only where
the clock is turned back within two days of the first instant of the calendar does it go back to
none. -/
theorem WellSpaced.attach?_of_inForce (hz : zone.WellSpaced) (hl : ¬ wall.IsLeapSecond)
    (hc : (wall.shift (-offset)).InCalendar)
    (hforce : zone.offsetAt (wall.second - offset) = offset) :
    zone.attach? wall (some offset) = some ⟨zone, wall.shift (-offset)⟩ ∨
      zone.attach? wall (some offset) = none ∧ ¬ zone.Regular ∧
        ¬ ((wall.shift (-offset)).shift (-172800)).InCalendar := by
  have hshows : (zone.wallOffsets wall.second).Shows offset := by
    have hshows := shows_offsetFrom hz.1 hz.2.1 hz.2.2 (wall.second - offset)
    rw [show offsetFrom zone.first zone.changes (wall.second - offset) = offset from hforce,
      Int.sub_add_cancel] at hshows
    exact hshows
  cases hw : zone.wallOffsets wall.second with
  | gap =>
    rw [hw] at hshows
    exact hshows.elim
  | once shown =>
    rw [hw] at hshows
    obtain rfl : offset = shown := hshows
    exact .inl (attach?_of_once hw hc _)
  | twice earlier later =>
    have hshown : (zone.wallOffsets wall.second).Shows earlier ∧
        (zone.wallOffsets wall.second).Shows later := by
      rw [hw]
      exact ⟨.inl rfl, .inr rfl⟩
    have hearlier := hz.shows_bounds hshown.1
    have hlater := hz.shows_bounds hshown.2
    have hback := later_lt_earlier hw
    rw [hw] at hshows
    by_cases hboth : (wall.shift (-earlier)).InCalendar ∧ (wall.shift (-later)).InCalendar
    · rw [attach?_of_twice hw hboth.1 hboth.2, hshows.preferred_eq]
      exact .inl rfl
    · -- One of the two instants lies beyond the calendar, and the reading counts as not shown.
      rw [attach?_of_not_both hw hboth, pushForward?_eq hl]
      have hin := hc
      simp only [Reading.InCalendar, Reading.date, Reading.shift, Reading.secondsPerDay,
        Date.InCalendar] at hin hboth
      have hstart : Date.yearStart Date.minYear = -96465292 := by decide
      have hend : Date.yearStart (Date.maxYear + 1) = 95026237 := by decide
      rcases hshows with rfl | rfl
      · obtain ⟨change, -, hbehind, hbefore, hforce⟩ := offsetFrom_before_twice hz.2.2 hw
        have hday : (wall.shift (-86400)).InCalendar := by
          simp only [Reading.InCalendar, Reading.date, Reading.shift, Reading.secondsPerDay,
            Date.InCalendar]
          omega
        have hoffset : zone.offsetAt (wall.second + -86400) = offset :=
          hforce _ (by omega) (by omega)
        rw [Reading.covered?, if_pos hday, Option.bind_some, hoffset, covered?_eq hc]
        exact .inl rfl
      · have hday : ¬ (wall.shift (-86400)).InCalendar := by
          simp only [Reading.InCalendar, Reading.date, Reading.shift, Reading.secondsPerDay,
            Date.InCalendar]
          omega
        have hregular : ¬ zone.Regular := fun hregular ↦ hboth (hregular.inCalendar_of_twice hw 0)
        rw [Reading.covered?, if_neg hday]
        refine .inr ⟨rfl, hregular, ?_⟩
        simp only [Reading.InCalendar, Reading.date, Reading.shift, Reading.secondsPerDay,
          Date.InCalendar]
        omega

theorem exists_shown_of_attach? (hz : zone.Regular) (hg : zone.gap? wall.second = none)
    (hl : ¬ wall.IsLeapSecond ∨ ∃ offset, (zone.wallOffsets wall.second).Shows offset ∧
      (wall.shift (-offset)).InCalendar) (h : zone.attach? wall preferred = some t) :
    ∃ offset, (zone.wallOffsets wall.second).Shows offset ∧
      ((zone.wallOffsets wall.second).earliest? = some offset ∨ preferred = some offset) ∧
      (wall.shift (-offset)).InCalendar ∧ t = ⟨zone, wall.shift (-offset)⟩ := by
  cases hw : zone.wallOffsets wall.second with
  | gap => exact absurd hw (gap?_eq_none_iff.1 hg)
  | once offset =>
    by_cases hc : (wall.shift (-offset)).InCalendar
    · rw [attach?_of_once hw hc] at h
      exact ⟨offset, rfl, .inl rfl, hc, (Option.some.inj h).symm⟩
    · rcases hl with hl | ⟨shown, hs, hin⟩
      · rw [attach?_of_uncovered hz hw hl hc] at h
        cases h
      · rw [hw] at hs
        obtain rfl : shown = offset := hs
        exact absurd hin hc
  | twice earlier later =>
    obtain ⟨hc, hc'⟩ := hz.inCalendar_of_twice hw wall.nano
    rw [attach?_of_twice hw hc hc'] at h
    have ht := (Option.some.inj h).symm
    split at ht
    · rename_i hlater
      exact ⟨later, .inr rfl, .inr hlater, hc', ht⟩
    · exact ⟨earlier, .inl rfl, .inl rfl, hc, ht⟩

/-- At the instant of a reading the clock shows the reading, moved forward if it lies in a gap. -/
theorem wall_of_attach? (hz : zone.Regular) (hl : ¬ wall.IsLeapSecond)
    (h : zone.attach? wall preferred = some t) :
    t.zone = zone ∧ t.utc.InCalendar ∧ t.wall = wall.shift (zone.push wall.second) := by
  cases hg : zone.gap? wall.second with
  | some gap =>
    rw [attach?_of_gap? hz.wellSpaced hg hl] at h
    obtain ⟨-, -, h⟩ := Option.bind_eq_some_iff.1 h
    obtain ⟨hc, rfl⟩ := ZonedTime.eq_of_covered? h
    refine ⟨rfl, hc, ?_⟩
    rw [wall_of_gap? hz.wellSpaced hg, push_of_gap? hg]
  | none =>
    obtain ⟨offset, hs, -, hc, rfl⟩ := exists_shown_of_attach? hz hg (.inl hl) h
    refine ⟨rfl, hc, ?_⟩
    simp [wall_of_shows hz.wellSpaced hs, push_of_gap?_eq_none hg]

end Zone

namespace ZonedTime

variable {t r : ZonedTime} {wall : Reading}

/-- A reading that the clock has passed, if no gap holds it, goes back to an instant in the past
that shows it. -/
theorem reattach?_of_passed (hz : t.zone.Regular) (ht : t.utc.InCalendar) (hw : wall ≤ t.wall)
    (hn : wall.second = t.wall.second ∨ ¬ wall.IsLeapSecond) (hg : t.zone.gap? wall.second = none)
    (hr : t.reattach? wall = some r) :
    r.zone = t.zone ∧ r.utc.InCalendar ∧ r.wall = wall ∧ r.utc ≤ t.utc := by
  have hspaced := hz.wellSpaced
  have hle : wall.second ≤ t.utc.second + t.offset := Reading.second_le hw
  have hleap : ¬ wall.IsLeapSecond ∨
      ∃ offset, (t.zone.wallOffsets wall.second).Shows offset ∧
      (wall.shift (-offset)).InCalendar := by
    refine hn.symm.imp_right fun hsecond ↦ ⟨t.offset, ?_, ?_⟩
    · rw [hsecond]
      exact Zone.shows_offsetFrom hspaced.1 hspaced.2.1 hspaced.2.2 t.utc.second
    · rw [Reading.InCalendar, Reading.date, Reading.shift, hsecond, ZonedTime.wall, Reading.shift,
        Int.add_neg_cancel_right]
      exact ht
  obtain ⟨offset, hs, hfirst, hc, rfl⟩ := Zone.exists_shown_of_attach? hz hg hleap hr
  refine ⟨rfl, hc, Zone.wall_of_shows hspaced hs, ?_⟩
  have hpast : wall.second - offset ≤ t.utc.second := by
    rcases hfirst with hfirst | hpreferred
    · exact Zone.sub_le_of_passed hle hfirst
    · obtain rfl := Option.some.inj hpreferred
      omega
  rcases Int.lt_or_eq_of_le hpast with hlt | heq
  · exact .inl hlt
  · -- Both instants lie in one second, where the clock shows one offset.
    have hforce := Zone.offsetFrom_of_shows hspaced.1 hspaced.2.1 hspaced.2.2 hs
    rw [heq] at hforce
    have hoffset : t.offset = offset := hforce
    rcases hw with hlt | ⟨-, hnano⟩
    · change wall.second < t.utc.second + t.offset at hlt
      omega
    · exact .inr ⟨heq, hnano⟩

end ZonedTime

end Almanac
