import Almanac.Proofs.ZonedTime.Distance
import Almanac.Proofs.ZonedTime.Localize

namespace Almanac

namespace Date

variable {d : Date} {unit : CalendarUnit}

def inMonth (d : Date) (index : Int) : Date :=
  ofYmd (index / 12) (index % 12 + 1) (min d.day (monthLength (index / 12) (index % 12 + 1)))

/-- The day so many units on, from days to years, in or out of the calendar. -/
def moved (d : Date) (amount : Int) : CalendarUnit → Date
  | .weeks => ⟨d.epochDay + 7 * amount⟩
  | .months => d.inMonth (d.monthIndex + amount)
  | .quarters => d.inMonth (d.monthIndex + 3 * amount)
  | .years => d.inMonth (d.monthIndex + 12 * amount)
  | _ => ⟨d.epochDay + amount⟩

theorem inMonth?_eq (d : Date) (index : Int) : d.inMonth? index = (d.inMonth index).covered? := by
  have hl := @monthLength_pos (index / 12) (index % 12 + 1) (by omega) (by omega)
  have hd := d.day_bounds
  exact ofYmd?_eq (by omega) (by omega) (by omega) (Int.min_le_right _ _)

@[simp] theorem inMonth_monthIndex (d : Date) : d.inMonth d.monthIndex = d := by
  simp [inMonth, Int.min_eq_left d.day_bounds.2]

theorem plus?_eq_moved (hu : unit ∈ CalendarUnit.dated) (d : Date) (amount : Int) :
    d.plus? amount unit = (d.moved amount unit).covered? := by
  cases unit with
  | days | weeks => rfl
  | months | quarters | years => exact inMonth?_eq d _
  | _ => exact absurd hu (by decide)

theorem place_inMonth (d : Date) (index : Int) :
    (d.inMonth index).place = index * 32 +
    min d.day (monthLength (index / 12) (index % 12 + 1)) := by
  have hl := @monthLength_pos (index / 12) (index % 12 + 1) (by omega) (by omega)
  have hd := d.day_bounds
  have hday := Int.min_le_right d.day (monthLength (index / 12) (index % 12 + 1))
  rw [place, monthIndex, inMonth, year_ofYmd (by omega) (by omega) (by omega) hday,
    month_ofYmd (by omega) (by omega) (by omega) hday,
    day_ofYmd (by omega) (by omega) (by omega) hday]
  omega

theorem le_inMonth_iff {e : Date} {index : Int} :
    e ≤ d.inMonth index ↔ e.place ≤ index * 32 + d.day := by
  have hplace := place_inMonth d index
  have hd := d.day_le
  have hday := e.day_bounds
  have hday' := e.day_le
  rw [le_iff_place, hplace]
  refine ⟨fun h ↦ by omega, fun h ↦ ?_⟩
  -- In the month itself the day has at most the month's length.
  by_cases hmonth : e.monthIndex = index
  · have hyear := monthIndex_ediv e
    have hmonth' := monthIndex_emod e
    rw [hmonth] at hyear hmonth'
    rw [hyear, hmonth']
    unfold place at *
    omega
  · have hl := @monthLength_pos (index / 12) (index % 12 + 1) (by omega) (by omega)
    have hday'' := d.day_bounds
    unfold place at *
    omega

/-- The days up to a moved day are those up to its place on the scale. -/
theorem le_moved_iff (hu : unit ∈ CalendarUnit.dated) {e : Date} (amount : Int) :
    e ≤ d.moved amount unit ↔ e.scale unit ≤ d.scale unit + amount * unit.span := by
  cases unit with
  | days | weeks =>
    rw [le_def]
    simp only [moved, scale, CalendarUnit.span]
    omega
  | months | quarters | years =>
    rw [moved, le_inMonth_iff]
    simp only [scale, place, CalendarUnit.span]
    omega
  | _ => exact absurd hu (by decide)

theorem moved_zero (hu : unit ∈ CalendarUnit.dated) (d : Date) : d.moved 0 unit = d := by
  cases unit with
  | days | weeks => exact congrArg mk (Int.add_zero d.epochDay)
  | months | quarters | years =>
    exact (congrArg d.inMonth (Int.add_zero d.monthIndex)).trans d.inMonth_monthIndex
  | _ => exact absurd hu (by decide)

end Date

namespace ZonedTime

variable {t r a b : ZonedTime} {amount : Int} {unit : CalendarUnit} {wall : Reading}

def movedWall (t : ZonedTime) (amount : Int) (unit : CalendarUnit) : Reading :=
  t.wall.onDate (t.wall.date.moved amount unit)

theorem plus?_eq_reattach? (hl : ¬ t.utc.IsLeapSecond) (hu : unit ∈ CalendarUnit.dated) :
    t.plus? amount unit = (t.wall.date.moved amount unit).covered?.bind fun _ ↦
    t.reattach? (t.movedWall amount unit) := by
  have htime : unit.isTimeBased = false := by
    revert hu
    cases unit <;> decide
  rw [plus?_eq_onDate? hl htime, Date.plus?_eq_moved hu, Date.covered?]
  split <;> rfl

theorem wallOffsets_eq_twice (hz : a.zone.WellSpaced) (hzone : b.zone = a.zone)
    (hwall : a.wall = b.wall) (hlt : a.utc < b.utc) :
    a.zone.wallOffsets a.wall.second = .twice a.offset b.offset := by
  have hshows := Zone.shows_wall hz
  have hshows' := Zone.shows_wall (hzone.symm ▸ hz)
  rw [hzone, ← hwall] at hshows'
  have hreadings : a.utc.second + a.offset = b.utc.second + b.offset :=
    congrArg Reading.second hwall
  have hnanos : a.wall.nano = b.wall.nano := congrArg Reading.nano hwall
  have hseconds : a.utc.second < b.utc.second := hlt.resolve_right fun h ↦ Nat.ne_of_lt h.2 hnanos
  cases hw : a.zone.wallOffsets a.wall.second with
  | gap =>
    rw [hw] at hshows
    exact hshows.elim
  | once offset =>
    rw [hw] at hshows hshows'
    have he : a.offset = offset := hshows
    have he' : b.offset = offset := hshows'
    omega
  | twice earlier later =>
    have hback := Zone.later_lt_earlier hw
    rw [hw] at hshows hshows'
    rcases hshows with he | he <;> rcases hshows' with he' | he'
    · omega
    · rw [he, he']
    · omega
    · omega

/-- Of two instants that show a reading, the one with the preferred offset is taken, or else the
first. -/
theorem attach?_of_shown_twice (hz : t.zone.WellSpaced) (hza : a.zone = t.zone)
    (hzb : b.zone = t.zone) (ha : a.utc.InCalendar) (hb : b.utc.InCalendar) (hwa : a.wall = wall)
    (hwb : b.wall = wall) (hlt : a.utc < b.utc) :
    t.reattach? wall = some (if b.offset = t.offset then b else a) := by
  have htwice := wallOffsets_eq_twice (hza.symm ▸ hz) (hzb.trans hza.symm) (hwa.trans hwb.symm) hlt
  have hback := a.shift_wall
  have hback' := b.shift_wall
  rw [hza, hwa] at htwice
  rw [hwa] at hback
  rw [hwb] at hback'
  rw [reattach?, Zone.attach?_of_twice htwice (hback.symm ▸ ha) (hback'.symm ▸ hb)]
  by_cases h : b.offset = t.offset
  · rw [if_pos (congrArg some h.symm), if_pos h, hback', ← hzb]
  · rw [if_neg fun he ↦ h (Option.some.inj he).symm, if_neg h, hback, ← hza]

theorem plus?_zero (hz : t.zone.WellSpaced) (hc : t.utc.InCalendar) (hw : t.wall.InCalendar)
    (hl : ¬ t.utc.IsLeapSecond) (hu : unit ∈ CalendarUnit.dated)
    (he : t.zone.Regular ∨ (t.utc.shift (-172800)).InCalendar) : t.plus? 0 unit = some t := by
  have hback := t.shift_wall
  have hsame : t.movedWall 0 unit = t.wall := by
    rw [movedWall, Date.moved_zero hu]
    exact Reading.ofDate_date t.wall
  have hforce : t.zone.offsetAt (t.wall.second - t.offset) = t.offset :=
    congrArg t.zone.offsetAt (Int.add_sub_cancel _ _)
  have hdate : t.wall.date.InCalendar := hw
  rw [plus?_eq_reattach? hl hu, hsame, Date.moved_zero hu, Date.covered?_of_inCalendar hdate,
    Option.bind_some, reattach?]
  rcases hz.attach?_of_inForce (show ¬ t.wall.IsLeapSecond from hl) (hback.symm ▸ hc) hforce
    with h | ⟨-, hirregular, hearly⟩
  · rw [h, hback]
  · rw [hback] at hearly
    exact (he.elim hirregular hearly).elim

/-- A step of dates keeps the time of day on the moved date. If the clock shows that reading, the
instant reached shows it, and of two showings it is the one with the old offset or else the first; a
reading that the clock skips is localized. No step leads back to the instant, if the clock is not
turned back at the very start of the calendar. -/
theorem date_steps_keep_time_of_day (hz : t.zone.WellSpaced) (hl : ¬ t.utc.IsLeapSecond)
    (hu : unit ∈ CalendarUnit.dated) :
    (∀ r, t.plus? amount unit = some r → r.zone = t.zone ∧
      (∀ s : ZonedTime, s.zone = t.zone → s.utc.InCalendar → s.wall = t.movedWall amount unit →
        r.wall = t.movedWall amount unit) ∧
      (∀ a b : ZonedTime, a.zone = t.zone → b.zone = t.zone → a.utc.InCalendar → b.utc.InCalendar →
        a.wall = t.movedWall amount unit → b.wall = t.movedWall amount unit → a.utc < b.utc →
        r = if b.offset = t.offset then b else a) ∧
      ((∀ s : ZonedTime, s.zone = t.zone → s.utc.InCalendar → s.wall ≠ t.movedWall amount unit) →
        t.zone.localize? (t.movedWall amount unit) = some r)) ∧
    (t.utc.InCalendar → t.wall.InCalendar → t.zone.Regular ∨ (t.utc.shift (-172800)).InCalendar →
      t.plus? 0 unit = some t) := by
  have hleap : ¬ (t.movedWall amount unit).IsLeapSecond := hl
  refine ⟨fun r hr ↦ ?_, fun hc hw he ↦ plus?_zero hz hc hw hl hu he⟩
  rw [plus?_eq_reattach? hl hu] at hr
  obtain ⟨-, -, hr⟩ := Option.bind_eq_some_iff.1 hr
  refine ⟨Zone.zone_of_attach? hr, fun s hzone hc hwall ↦ ?_,
    fun a b hza hzb ha hb hwa hwb hlt ↦ ?_, fun hno ↦ ?_⟩
  · rw [← hwall] at hr hleap ⊢
    exact (hz.attach?_shown (absurd · hleap) hzone hc hr).2.2.1
  · rw [attach?_of_shown_twice hz hza hzb ha hb hwa hwb hlt] at hr
    exact (Option.some.inj hr).symm
  · rcases Zone.attach?_cases t.zone (t.movedWall amount unit) (some t.offset) with he |
      ⟨earlier, later, htwice, -⟩
    · rw [← he]
      exact hr
    · obtain ⟨hcovered, -⟩ := hz.eq_of_attach?_twice htwice (absurd · hleap) hr
      have hshows : (t.zone.wallOffsets (t.movedWall amount unit).second).Shows earlier := by
        rw [htwice]
        exact .inl rfl
      exact absurd (Zone.wall_of_shows hz hshows) (hno ⟨t.zone, _⟩ rfl hcovered)

/-- Berlin shows the half hour after two twice on 2024-10-27. A day before the same time of day in
winter lies its second showing, with winter's offset, which a step of no months keeps. -/
theorem day_back_to_second_showing :
    let winter : ZonedTime := ⟨.europeBerlin, ⟨1730079000, 0⟩⟩
    let first : ZonedTime := ⟨.europeBerlin, ⟨1729989000, 0⟩⟩
    let second : ZonedTime := ⟨.europeBerlin, ⟨1729992600, 0⟩⟩
    first.wall = second.wall ∧ first.offset = 7200 ∧ winter.plus? (-1) .days = some second ∧
      second.wall = winter.movedWall (-1) .days ∧ second.plus? 0 .months = some second := by
  intro winter first second
  have hberlin : Zone.europeBerlin.Regular := Zone.regular_of_mem_table (by simp [Zone.table])
  have hfirst : first.wall = winter.movedWall (-1) .days := by decide +kernel
  have hsecond : second.wall = winter.movedWall (-1) .days := by decide +kernel
  have hsome : (winter.plus? (-1) .days).isSome := by decide +kernel
  obtain ⟨r, hr⟩ := Option.isSome_iff_exists.1 hsome
  obtain ⟨hstep, -⟩ :=
    @date_steps_keep_time_of_day winter (-1) .days hberlin.wellSpaced (by decide) (by decide)
  obtain ⟨-, hsame⟩ :=
    @date_steps_keep_time_of_day second 0 .months hberlin.wellSpaced (by decide) (by decide)
  obtain ⟨-, -, htwice, -⟩ := hstep r hr
  have hkept : r = second := by
    rw [htwice first second rfl rfl (by decide) (by decide) hfirst hsecond (by decide)]
    exact if_pos (by decide +kernel)
  exact ⟨hfirst.trans hsecond.symm, by decide +kernel, hkept ▸ hr, hsecond,
    hsame (by decide) (by decide +kernel) (.inl hberlin)⟩

end ZonedTime

end Almanac
