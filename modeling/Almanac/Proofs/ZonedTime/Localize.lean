import Almanac.Proofs.ZonedTime.Attach

namespace Almanac

namespace Reading

variable {r : Reading} {seconds offset : Int}

/-- Forwards, a leap second is left from the second that holds it. -/
theorem advance_seconds_of_pos (hl : r.IsLeapSecond) (hn : r.nano < 2000000000) (hs : 0 < seconds) :
    r.advance (seconds * nanosPerSecond) = ⟨r.second + seconds, r.nano - 1000000000⟩ := by
  have htdiv : (seconds * nanosPerSecond).tdiv nanosPerSecond = seconds :=
    Int.mul_tdiv_cancel _ (by decide)
  rw [advance, if_pos hl, htdiv, if_pos (.inl hs)]
  unfold IsLeapSecond at hl
  simp only [ofNanos, toNanos, nanosPerSecond, mk.injEq] at hl ⊢
  omega

theorem advance_seconds_of_neg (hl : r.IsLeapSecond) (hn : r.nano < 2000000000) (hs : seconds < 0) :
    r.advance (seconds * nanosPerSecond) = ⟨r.second + 1 + seconds, r.nano - 1000000000⟩ := by
  have htdiv : (seconds * nanosPerSecond).tdiv nanosPerSecond = seconds :=
    Int.mul_tdiv_cancel _ (by decide)
  have htmod : (seconds * nanosPerSecond).tmod nanosPerSecond = 0 := Int.mul_tmod_left _ _
  have hno : ¬ (0 < seconds ∨ (0 : Int) < 0 ∧ 2 * nanosPerSecond ≤ r.nano + 0) := by
    rintro (h | h)
    · omega
    · exact Int.lt_irrefl 0 h.1
  rw [advance, if_pos hl, htdiv, htmod, if_neg hno, if_pos hs]
  unfold IsLeapSecond at hl
  simp only [ofNanos, toNanos, nanosPerSecond, mk.injEq] at hl ⊢
  omega

theorem second_advance_of_nonneg (hn : r.nano < 2000000000) (hs : 0 ≤ seconds) :
    (r.advance (seconds * nanosPerSecond)).second = r.second + seconds := by
  by_cases hl : r.IsLeapSecond
  · rcases Int.lt_or_eq_of_le hs with hpos | rfl
    · rw [advance_seconds_of_pos hl hn hpos]
    · simp
  · rw [advance_seconds hl]
    rfl

theorem second_advance_bounds (hn : r.nano < 2000000000) (seconds : Int) :
    r.second + seconds ≤ (r.advance (seconds * nanosPerSecond)).second ∧
      (r.advance (seconds * nanosPerSecond)).second ≤ r.second + 1 + seconds := by
  by_cases hl : r.IsLeapSecond
  · rcases Int.lt_trichotomy seconds 0 with hs | rfl | hs
    · rw [advance_seconds_of_neg hl hn hs]
      simp only
      omega
    · rw [Int.zero_mul, advance_zero]
      omega
    · rw [advance_seconds_of_pos hl hn hs]
      simp only
      omega
  · rw [advance_seconds hl]
    simp only [shift]
    omega

/-- Going back by one offset and forth by a greater one is going forth by the difference, but for a
leap second that the way back does not leave forwards. -/
theorem shift_advance_eq_iff (hn : r.nano < 2000000000) (h : seconds < offset) :
    (r.advance (-seconds * nanosPerSecond)).shift offset =
    r.advance ((offset - seconds) * nanosPerSecond) ↔
      ¬ r.IsLeapSecond ∨ seconds < 0 := by
  by_cases hl : r.IsLeapSecond
  · have hnano : 1000000000 ≤ r.nano := by
      unfold IsLeapSecond nanosPerSecond at hl
      omega
    rw [advance_seconds_of_pos hl hn (Int.sub_pos_of_lt h)]
    rw [or_iff_right (not_not_intro hl)]
    rcases Int.lt_trichotomy seconds 0 with hs | rfl | hs
    · rw [advance_seconds_of_pos hl hn (Int.neg_pos_of_neg hs)]
      simp only [shift, mk.injEq, and_true]
      omega
    · rw [Int.neg_zero, Int.zero_mul, advance_zero]
      simp only [shift, mk.injEq]
      omega
    · rw [advance_seconds_of_neg hl hn (Int.neg_neg_of_pos hs)]
      simp only [shift, mk.injEq]
      omega
  · rw [advance_seconds hl, advance_seconds hl, shift_shift]
    refine iff_of_true ?_ (.inl hl)
    congr 1
    omega

end Reading

namespace Zone

variable {zone : Zone} {wall : Reading} {gap : Gap} {preferred : Option Int} {r t : ZonedTime}
  {current since second : Int} {changes : List OffsetChange}

theorem gapFrom_of_skipped (hc : -86400 < current ∧ current < 86400)
    (hb : ∀ change ∈ changes, -86400 < change.offset ∧ change.offset < 86400)
    (hs : changes.Pairwise fun a b ↦ a.since + 172800 ≤ b.since)
    (hlow : since + offsetFrom current changes (since - 1) ≤ second)
    (hhigh : second < since + offsetFrom current changes since) :
    ∃ gap, gapFrom current changes second = some gap ∧
    gap.before = offsetFrom current changes (since - 1) ∧
      gap.change.since = since ∧ gap.change.offset = offsetFrom current changes since := by
  induction changes generalizing current with
  | nil =>
    simp only [offsetFrom] at hlow hhigh
    omega
  | cons change rest ih =>
    obtain ⟨hfirst, hrest⟩ := List.pairwise_cons.1 hs
    have hchange := hb change List.mem_cons_self
    simp only [offsetFrom] at hlow hhigh ⊢
    rcases Int.lt_trichotomy change.since since with hlt | rfl | hgt
    · -- The change lies behind, and so does its own gap, since the next change is far.
      rw [if_pos (by omega)] at hlow ⊢
      rw [if_pos (by omega)] at hhigh ⊢
      obtain ⟨gap, hgap, hbefore, hsince, hafter⟩ :=
        ih hchange (fun other hm ↦ hb other (List.mem_cons_of_mem _ hm)) hrest hlow hhigh
      have hspaced := hfirst gap.change (gapFrom_bounds hgap).1
      have hbounds := offsetFrom_bounds hchange
        (fun other hm ↦ hb other (List.mem_cons_of_mem _ hm)) (since - 1)
      refine ⟨gap, ?_, hbefore, hsince, hafter⟩
      rw [gapFrom, if_neg (by omega), if_neg (by omega), hgap]
    · rw [if_neg (by omega)] at hlow ⊢
      rw [if_pos (Int.le_refl _)] at hhigh ⊢
      have hafter : offsetFrom change.offset rest change.since = change.offset := by
        rcases @offsetFrom_eq_or change.offset rest _ hfirst change.since with he | hfar
        · exact he
        · omega
      rw [hafter] at hhigh ⊢
      refine ⟨⟨current, change⟩, ?_, rfl, rfl, rfl⟩
      rw [gapFrom, if_neg (by omega), if_pos hhigh]
    · rw [if_neg (by omega)] at hlow hhigh
      omega

theorem WellSpaced.gap?_of_skipped (hz : zone.WellSpaced)
    (hlow : since + zone.offsetAt (since - 1) ≤ second)
    (hhigh : second < since + zone.offsetAt since) :
    ∃ gap, zone.gap? second = some gap ∧ gap.before = zone.offsetAt (since - 1) ∧
    gap.change.since = since ∧
      gap.change.offset = zone.offsetAt since :=
  gapFrom_of_skipped hz.1 hz.2.1 hz.2.2 hlow hhigh

/-- A reading in a gap, leap second or not, goes back to an instant by the offset before the gap,
and the offset there is the one behind the gap. -/
theorem WellSpaced.eq_of_attach?_skipped (hz : zone.WellSpaced)
    (hg : zone.gap? wall.second = some gap)
    (hn : wall.nano < 2000000000) (h : zone.attach? wall preferred = some r) :
    r = ⟨zone, wall.advance (-gap.before * Reading.nanosPerSecond)⟩ ∧
    gap.change.since ≤ r.utc.second ∧
      r.offset = gap.change.offset := by
  obtain ⟨hbefore, hafter, hstart, hstop⟩ := hz.gap_spec hg
  obtain ⟨hforce, hforce'⟩ :=
    @offsetFrom_near_gap _ (wall.advance (-86400 * Reading.nanosPerSecond)).second _ _ _
    hz.2.2 hg
  have hday := Reading.second_advance_bounds hn (-86400)
  have hgap : zone.wallOffsets wall.second = .gap := by
    by_contra hne
    rw [gap?_eq_none_iff.2 hne] at hg
    cases hg
  unfold attach? at h
  rw [hgap] at h
  obtain ⟨dayBefore, hcovered, h⟩ := Option.bind_eq_some_iff.1 h
  obtain rfl : dayBefore = wall.advance (-86400 * Reading.nanosPerSecond) := by
    unfold Reading.covered? at hcovered
    split at hcovered
    · exact (Option.some.inj hcovered).symm
    · cases hcovered
  have hoffset : zone.offsetAt (wall.advance (-86400 * Reading.nanosPerSecond)).second =
      gap.before :=
    hforce (by omega) (by omega)
  rw [hoffset, ← Int.neg_mul] at h
  obtain ⟨-, rfl⟩ := ZonedTime.eq_of_covered? h
  have hback := Reading.second_advance_bounds hn (-gap.before)
  exact ⟨rfl, by simp only; omega,
    (offsetFrom_near_gap hz.2.2 hg).2 (by simp only; omega) (by simp only; omega)⟩

theorem covered_of_attach? (h : zone.attach? wall preferred = some r) :
    r.zone = zone ∧ r.utc.InCalendar := by
  have hcovered {utc : Reading} (h : ZonedTime.covered? zone utc = some r) :
      r.zone = zone ∧ r.utc.InCalendar := by
    obtain ⟨hc, rfl⟩ := ZonedTime.eq_of_covered? h
    exact ⟨rfl, hc⟩
  have hpush (h : zone.pushForward? wall = some r) : r.zone = zone ∧ r.utc.InCalendar := by
    obtain ⟨dayBefore, -, h⟩ := Option.bind_eq_some_iff.1 h
    exact hcovered h
  unfold attach? at h
  split at h
  · rcases Option.or_eq_some_iff.1 h with h | ⟨-, h⟩
    · exact hcovered h
    · exact hpush h
  · split at h
    · rename_i hboth
      rw [← Option.some.inj h]
      refine ⟨rfl, ?_⟩
      split
      · exact hboth.2
      · exact hboth.1
    · exact hpush h
  · exact hpush h

theorem zone_of_attach? (h : zone.attach? wall preferred = some r) :
    r.zone = zone := (covered_of_attach? h).1

theorem shows_wall (hz : t.zone.WellSpaced) : (t.zone.wallOffsets t.wall.second).Shows t.offset :=
  shows_offsetFrom hz.1 hz.2.1 hz.2.2 t.utc.second

theorem WellSpaced.eq_of_attach?_twice {earlier later : Int} (hz : zone.WellSpaced)
    (hw : zone.wallOffsets wall.second = .twice earlier later)
    (hl : wall.IsLeapSecond → zone.Regular) (h : zone.attach? wall preferred = some r) :
    (wall.shift (-earlier)).InCalendar ∧
    r = ⟨zone, wall.shift (-(if preferred = some later ∧ (wall.shift (-later)).InCalendar then later
      else earlier))⟩ := by
  by_cases hboth : (wall.shift (-earlier)).InCalendar ∧ (wall.shift (-later)).InCalendar
  · rw [attach?_of_twice hw hboth.1 hboth.2] at h
    simp only [hboth.2, and_true]
    exact ⟨hboth.1, (Option.some.inj h).symm⟩
  · have hleap : ¬ wall.IsLeapSecond :=
      fun hleap ↦ hboth ((hl hleap).inCalendar_of_twice hw wall.nano)
    have hshown : (zone.wallOffsets wall.second).Shows earlier ∧
        (zone.wallOffsets wall.second).Shows later := by
      rw [hw]
      exact ⟨.inl rfl, .inr rfl⟩
    have hearlier := hz.shows_bounds hshown.1
    have hlater := hz.shows_bounds hshown.2
    obtain ⟨change, -, hbehind, hbefore, hforce⟩ := offsetFrom_before_twice hz.2.2 hw
    have hoffset : zone.offsetAt (wall.second + -86400) = earlier := hforce _ (by omega) (by omega)
    rw [attach?_of_not_both hw hboth, pushForward?_eq hleap, hoffset] at h
    obtain ⟨-, -, h⟩ := Option.bind_eq_some_iff.1 h
    obtain ⟨hc, rfl⟩ := ZonedTime.eq_of_covered? h
    rw [if_neg fun hp ↦ hboth ⟨hc, hp.2⟩]
    exact ⟨hc, rfl⟩

/-- A reading that the clock shows goes back to the first instant that shows it, or to the one with
the preferred offset. -/
theorem WellSpaced.attach?_shown (hz : zone.WellSpaced) (hl : t.wall.IsLeapSecond → zone.Regular)
    (hzone : t.zone = zone) (hc : t.utc.InCalendar) (h : zone.attach? t.wall preferred = some r) :
    r.zone = zone ∧ r.utc.InCalendar ∧ r.wall = t.wall ∧
    (r.utc ≤ t.utc ∨ preferred = some r.offset) := by
  subst hzone
  have hshows := shows_wall hz
  have hback := t.shift_wall
  have hreading (offset : Int) (hs : (t.zone.wallOffsets t.wall.second).Shows offset) :
      (⟨t.zone, t.wall.shift (-offset)⟩ : ZonedTime).wall = t.wall := wall_of_shows hz hs
  cases hw : t.zone.wallOffsets t.wall.second with
  | gap =>
    rw [hw] at hshows
    exact hshows.elim
  | once offset =>
    have hs : (t.zone.wallOffsets t.wall.second).Shows offset := by
      rw [hw]
      rfl
    rw [hw] at hshows
    obtain rfl : t.offset = offset := hshows
    rw [attach?_of_once hw (hback.symm ▸ hc)] at h
    obtain rfl := Option.some.inj h
    refine ⟨rfl, hback.symm ▸ hc, hreading _ hs, .inl ?_⟩
    rw [hback]
    exact .inr ⟨rfl, Nat.le_refl _⟩
  | twice earlier later =>
    have hearlier : (t.zone.wallOffsets t.wall.second).Shows earlier := by
      rw [hw]
      exact .inl rfl
    have hlater : (t.zone.wallOffsets t.wall.second).Shows later := by
      rw [hw]
      exact .inr rfl
    have hlt := later_lt_earlier hw
    rw [hw] at hshows
    obtain ⟨hcovered, rfl⟩ := hz.eq_of_attach?_twice hw hl h
    split
    · rename_i hpreferred
      refine ⟨rfl, hpreferred.2, hreading later hlater, .inr ?_⟩
      rw [hpreferred.1, Option.some.injEq]
      exact (offsetFrom_of_shows hz.1 hz.2.1 hz.2.2 hlater).symm
    · refine ⟨rfl, hcovered, hreading earlier hearlier, .inl ?_⟩
      rw [← hback]
      rcases hshows with he | he
      · rw [he]
        exact .inr ⟨rfl, Nat.le_refl _⟩
      · left
        simp only [Reading.shift, he]
        omega

/-- Every reading that an instant shows is localized to the first such instant. In a gap a reading
is moved forward by the length of the gap, past the change and under the new offset, except that a
leap second is moved a second further where the old offset is not behind UTC. -/
theorem localize?_of_shown_or_skipped (hz : zone.WellSpaced) (hn : wall.nano < 2000000000)
    (h : zone.localize? wall = some r) :
    ((wall.IsLeapSecond → zone.Regular) →
      ∀ t : ZonedTime, t.zone = zone → t.utc.InCalendar → t.wall = wall →
        r.wall = wall ∧ r.utc ≤ t.utc) ∧
    ∀ since : Int, since + zone.offsetAt (since - 1) ≤ wall.second →
      wall.second < since + zone.offsetAt since →
      r.offset = zone.offsetAt since ∧ since ≤ r.utc.second ∧
      (r.wall = wall.advance
          ((zone.offsetAt since - zone.offsetAt (since - 1)) * Reading.nanosPerSecond) ↔
        ¬ wall.IsLeapSecond ∨ zone.offsetAt (since - 1) < 0) := by
  refine ⟨fun hl t hzone hc hwall ↦ ?_, fun since hlow hhigh ↦ ?_⟩
  · subst hwall
    obtain ⟨-, -, hreading, hfirst⟩ := hz.attach?_shown hl hzone hc h
    exact ⟨hreading, hfirst.resolve_right fun hno ↦ nomatch hno⟩
  · obtain ⟨gap, hg, hbefore, hsince, hafter⟩ := hz.gap?_of_skipped hlow hhigh
    obtain ⟨rfl, hbehind, hoffset⟩ := hz.eq_of_attach?_skipped hg hn h
    rw [hsince] at hbehind
    rw [hafter] at hoffset
    refine ⟨hoffset, hbehind, ?_⟩
    rw [ZonedTime.wall, hoffset, ← hbefore]
    exact Reading.shift_advance_eq_iff hn (by omega)

/-- Samoa skipped the whole of 2011-12-30, whose noon is localized to the noon after it. The half
hour after one that New York shows twice on 2024-11-03 is localized to its first showing. -/
theorem localized_across_skipped_day :
    let noon : Reading := ⟨1325246400, 0⟩
    let moved : ZonedTime := ⟨.pacificApia, ⟨1325282400, 0⟩⟩
    let first : ZonedTime := ⟨.americaNewYork, ⟨1730611800, 0⟩⟩
    let second : ZonedTime := ⟨.americaNewYork, ⟨1730615400, 0⟩⟩
    pacificApia.localize? noon = some moved ∧
    moved.wall = noon.advance (86400 * Reading.nanosPerSecond) ∧
      moved.offset = 50400 ∧ 1325239200 ≤ moved.utc.second ∧
      americaNewYork.localize? second.wall = some first ∧ first.wall = second.wall ∧
      first.utc ≤ second.utc := by
  intro noon moved first second
  have hapia : pacificApia.Regular := regular_of_mem_table (by simp [table])
  have hyork : americaNewYork.Regular := regular_of_mem_table (by simp [table])
  have hmoved : pacificApia.localize? noon = some moved := by decide +kernel
  have hfirst : americaNewYork.localize? second.wall = some first := by decide +kernel
  have hold : pacificApia.offsetAt (1325239200 - 1) = -36000 := by decide +kernel
  have hnew : pacificApia.offsetAt 1325239200 = 50400 := by decide +kernel
  obtain ⟨-, hskipped⟩ := localize?_of_shown_or_skipped hapia.wellSpaced (by decide) hmoved
  obtain ⟨hshown, -⟩ := localize?_of_shown_or_skipped hyork.wellSpaced (by decide) hfirst
  obtain ⟨hoffset, hbehind, hread⟩ :=
    hskipped 1325239200 (by rw [hold]; decide) (by rw [hnew]; decide)
  obtain ⟨hwall, hle⟩ := hshown (fun _ ↦ hyork) second rfl (by decide) rfl
  rw [hold, hnew] at hread
  exact ⟨hmoved, hread.2 (.inl (by decide)), hoffset.trans hnew, hbehind, hfirst, hwall, hle⟩

/-- A reading in a gap is not always moved forward by the length of the gap: a leap second of the
hour that Berlin skipped on 2024-03-31 is moved a second further. -/
theorem skipped_leap_second_moved_further :
    ¬ ∀ (zone : Zone) (wall : Reading) (r : ZonedTime),
      zone ∈ table → wall.nano < 2000000000 → (wall.IsLeapSecond → wall.second % 60 = 59) →
      zone.localize? wall = some r →
      ∀ since : Int, since + zone.offsetAt (since - 1) ≤ wall.second →
        wall.second < since + zone.offsetAt since →
        r.wall = wall.advance
          ((zone.offsetAt since - zone.offsetAt (since - 1)) * Reading.nanosPerSecond) := by
  intro h
  have hmem : europeBerlin ∈ table := by simp [table]
  have hold : europeBerlin.offsetAt (1711846800 - 1) = 3600 := by decide +kernel
  have hnew : europeBerlin.offsetAt 1711846800 = 7200 := by decide +kernel
  have hread := h europeBerlin ⟨1711853999, 1500000000⟩ ⟨europeBerlin, ⟨1711850400, 500000000⟩⟩ hmem
    (by decide) (by decide) (by decide +kernel) 1711846800 (by rw [hold]; decide)
    (by rw [hnew]; decide)
  rw [hold, hnew] at hread
  revert hread
  decide +kernel

end Zone

namespace ZonedTime

variable {t r : ZonedTime} {amount : Int} {unit : CalendarUnit} {letter : Letter}

theorem covered_of_advance? {lapse : Int} (h : t.advance? lapse = some r) :
    r.zone = t.zone ∧ r.utc.InCalendar := by
  obtain ⟨hc, rfl⟩ := eq_of_covered? h
  exact ⟨rfl, hc⟩

theorem covered_of_reattach? {wall : Reading} (h : t.reattach? wall = some r) :
    r.zone = t.zone ∧ r.utc.InCalendar := Zone.covered_of_attach? h

theorem covered_of_reattach?_bind {α : Type} {x : Option α} {wall : α → Reading}
    (h : (x.bind fun a ↦ t.reattach? (wall a)) = some r) : r.zone = t.zone ∧ r.utc.InCalendar := by
  obtain ⟨a, -, h⟩ := Option.bind_eq_some_iff.1 h
  exact covered_of_reattach? h

theorem covered_of_plus? (h : t.plus? amount unit = some r) :
    r.zone = t.zone ∧ r.utc.InCalendar := by
  cases unit with
  | nanos | millis | seconds | minutes | hours | halfDays => exact covered_of_advance? h
  | days | weeks | months | quarters | years | weekBasedYears | eras =>
    exact covered_of_reattach?_bind h

theorem covered_of_floor? (hc : t.utc.InCalendar) (h : t.floor? unit = some r) :
    r.zone = t.zone ∧ r.utc.InCalendar := by
  cases unit with
  | nanos =>
    obtain rfl := Option.some.inj h
    exact ⟨rfl, hc⟩
  | millis | seconds | minutes | hours | halfDays | days => exact covered_of_reattach? h
  | weeks | months | quarters | years | weekBasedYears | eras => exact covered_of_reattach?_bind h

theorem covered_of_floorTo? (hc : t.utc.InCalendar) (h : t.floorTo? letter = some r) :
    r.zone = t.zone ∧ r.utc.InCalendar := by
  rw [floorTo?_eq] at h
  exact covered_of_floor? hc h

end ZonedTime

end Almanac
