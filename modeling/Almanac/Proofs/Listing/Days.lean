import Almanac.Proofs.Listing
import Almanac.Proofs.NamePattern
import Almanac.Proofs.ZonedTime.Attach
import Almanac.Proofs.ZonedTime.Distance
import Mathlib.Data.Int.Range

namespace Almanac

/-- What the clock shows at the instant of a day's midnight. -/
def Zone.movedMidnight (zone : Zone) (date : Date) : Int :=
  date.epochDay * 86400 + zone.push (date.epochDay * 86400)

namespace Zone

variable {zone : Zone} {current second : Int} {changes : List OffsetChange}

theorem offsetFrom_nonpos (hc : current ≤ 0) (h : ∀ change ∈ changes, change.offset ≤ 0) :
    offsetFrom current changes second ≤ 0 := by
  induction changes generalizing current with
  | nil => exact hc
  | cons change rest ih =>
    rw [offsetFrom]
    split
    · exact ih (h change List.mem_cons_self) fun other hm ↦ h other (List.mem_cons_of_mem _ hm)
    · exact hc

/-- West of Greenwich every date has an instant, that of its midnight. -/
theorem exists_wall_date (hz : zone.WellSpaced) (hc : zone.first ≤ 0)
    (h : ∀ change ∈ zone.changes, change.offset ≤ 0) {date : Date} (hd : date.InCalendar) :
    ∃ t : ZonedTime, t.zone = zone ∧ t.utc.InCalendar ∧ t.wall.date = date := by
  have hwest (second : Int) : -86400 < zone.offsetAt second ∧ zone.offsetAt second ≤ 0 :=
    ⟨(offsetFrom_bounds hz.1 hz.2.1 second).1, offsetFrom_nonpos hc h⟩
  have hdate {seconds : Int} (hs : 0 ≤ seconds) (hs' : seconds < 86400) :
      ((Reading.ofDate date 0 0).shift seconds).date = date := by
    cases date
    simp only [Reading.date, Reading.shift, Reading.ofDate, Reading.secondsPerDay, Date.mk.injEq]
    omega
  have hcovered {seconds : Int} (hs : 0 ≤ seconds) (hs' : seconds < 86400) :
      ((Reading.ofDate date 0 0).shift seconds).InCalendar := by
    rw [Reading.InCalendar, hdate hs hs']
    exact hd
  cases hg : zone.gap? (Reading.ofDate date 0 0).second with
  | none =>
    obtain ⟨offset, hs⟩ := exists_shows (gap?_eq_none_iff.1 hg)
    have hoffset := hwest ((Reading.ofDate date 0 0).second - offset)
    rw [offsetAt, offsetFrom_of_shows hz.1 hz.2.1 hz.2.2 hs] at hoffset
    refine ⟨⟨zone, (Reading.ofDate date 0 0).shift (-offset)⟩, rfl,
      hcovered (by omega) (by omega), ?_⟩
    simp [wall_of_shows hz hs]
  | some gap =>
    obtain ⟨-, -, hstart, hstop⟩ := hz.gap_spec hg
    have hafter := h gap.change (gapFrom_bounds hg).1
    have hbefore := hwest (gap.change.since - 1)
    rw [offsetAt, (offsetFrom_near_gap hz.2.2 hg).1 (by omega) (by omega)] at hbefore
    have hlength : gap.length = gap.change.offset - gap.before := rfl
    refine ⟨⟨zone, (Reading.ofDate date 0 0).shift (-gap.before)⟩, rfl,
      hcovered (by omega) (by omega), ?_⟩
    rw [wall_of_gap? hz hg, hdate (by omega) (by omega)]

end Zone

theorem Reading.advance_days {r : Reading} (hn : r.nano < 2000000000) (count : Nat) :
    ∃ nano, r.advance (count * (secondsPerDay * nanosPerSecond)) =
    ⟨r.second + 86400 * count, nano⟩ ∧
      (count = 0 ∧ nano = r.nano ∨ nano < 1000000000) := by
  have hlapse : (count : Int) * (secondsPerDay * nanosPerSecond) =
      86400 * count * nanosPerSecond := by
    unfold secondsPerDay
    rw [← Int.mul_assoc, Int.mul_comm (count : Int)]
  by_cases hl : r.IsLeapSecond
  · cases count with
    | zero =>
      refine ⟨r.nano, ?_, .inl ⟨rfl, rfl⟩⟩
      simp
    | succ count =>
      refine ⟨r.nano - 1000000000, ?_, .inr (by omega)⟩
      rw [hlapse, advance, if_pos hl]
      have hseconds : (86400 * (count + 1 : Nat) * nanosPerSecond).tdiv nanosPerSecond =
          86400 * (count + 1 : Nat) :=
        Int.mul_tdiv_cancel _ (by decide)
      simp only [hseconds]
      rw [if_pos (.inl (by omega))]
      unfold IsLeapSecond nanosPerSecond at hl
      simp only [ofNanos, toNanos, nanosPerSecond, mk.injEq]
      omega
  · refine ⟨r.nano, ?_, .inr (nano_lt hl)⟩
    rw [hlapse, advance_seconds hl, shift]

namespace ZonedTime

variable {t r start stop first final : ZonedTime}

theorem wall_of_floor?_days (hz : t.zone.Regular) (h : t.floor? .days = some first) :
    first.zone = t.zone ∧ first.utc.InCalendar ∧
      first.wall = ⟨t.zone.movedMidnight t.wall.date, 0⟩ := by
  have hmidnight : Reading.ofDate t.wall.date 0 0 = ⟨t.wall.date.epochDay * 86400, 0⟩ := by
    rw [Reading.ofDate, Int.add_zero]
    rfl
  change t.zone.attach? (.ofDate t.wall.date 0 0) (some t.offset) = some first at h
  rw [hmidnight] at h
  exact Zone.wall_of_attach? hz (Reading.not_isLeapSecond_ofPeriod _ .seconds) h

/-- Whole days later the clock shows the same time of day, if no gap moves it. -/
theorem wall_of_plus?_days (hz : t.zone.Regular) (hc : t.utc.InCalendar)
    (hn : t.utc.nano < 2000000000) {count : Nat} (h : t.plus? count .days = some r) :
    Date.InCalendar ⟨t.wall.date.epochDay + count⟩ ∧
      r.wall.second =
        t.wall.second + 86400 * count + t.zone.push (t.wall.second + 86400 * count) := by
  obtain ⟨moved, hmoved, hr⟩ := Option.bind_eq_some_iff.1 h
  obtain ⟨nano, hadvance, hnano⟩ := Reading.advance_days (r := t.wall) hn count
  rw [hadvance, Reading.covered?] at hmoved
  split at hmoved
  · rename_i hin
    cases hmoved
    refine ⟨?_, ?_⟩
    · have hday : (⟨t.wall.second + 86400 * count, nano⟩ : Reading).date =
          ⟨t.wall.date.epochDay + count⟩ := by
        simp only [Reading.date, Reading.secondsPerDay, Date.mk.injEq]
        omega
      rwa [Reading.InCalendar, hday] at hin
    · rcases hnano with ⟨rfl, rfl⟩ | hnano
      · rw [Int.natCast_zero, Int.mul_zero, Int.add_zero] at hr ⊢
        obtain rfl := Option.some.inj ((reattach?_wall hz hc).symm.trans hr)
        rw [Zone.push_of_gap?_eq_none (gap?_wall_eq_none hz.wellSpaced), Int.add_zero]
      · have hleap : ¬ (⟨t.wall.second + 86400 * count, nano⟩ : Reading).IsLeapSecond :=
          fun h ↦ absurd (Int.ofNat_le.1 h) (Nat.not_le.2 hnano)
        obtain ⟨-, -, hwall⟩ := Zone.wall_of_attach? hz hleap hr
        exact congrArg Reading.second hwall
  · cases hmoved

/-- The days between two floored instants are those between the moved midnights. -/
theorem unitsUntil_days (hz : start.zone.Regular) (hz' : stop.zone = start.zone)
    (hf : start.floor? .days = some first) (hf' : stop.floor? .days = some final) :
    first.unitsUntil final .days < Count.greatest ∧
    (Date.yearStart Date.minYear ≤ start.wall.date.epochDay →
      start.zone.movedMidnight start.wall.date ≤ start.zone.movedMidnight stop.wall.date →
      first.unitsUntil final .days =
        (start.zone.movedMidnight stop.wall.date - start.zone.movedMidnight start.wall.date) /
        86400) ∧
    (start.zone.movedMidnight stop.wall.date < start.zone.movedMidnight start.wall.date →
      first.unitsUntil final .days ≤ 0) := by
  obtain ⟨hzone, hc, hwall⟩ := wall_of_floor?_days hz hf
  obtain ⟨hzone', hc', hwall'⟩ := wall_of_floor?_days (hz' ▸ hz) hf'
  have hnear {t : ZonedTime} (h : t.zone = start.zone) (hc : t.utc.InCalendar) :
      Date.yearStart Date.minYear - 1 ≤ t.wall.date.epochDay ∧
        t.wall.date.epochDay ≤ Date.yearStart (Date.maxYear + 1) := by
    have hspaced := hz.wellSpaced
    rw [← h] at hspaced
    obtain ⟨hlo, hup⟩ := hc
    have hoffset := offset_bounds hspaced
    simp only [wall, Reading.date, Reading.shift, Reading.secondsPerDay] at hlo hup ⊢
    omega
  have hfirst := hnear hzone hc
  have hfinal := hnear (hzone'.trans hz') hc'
  -- Both floors are midnights, moved where a gap holds them, so the count is between these.
  have hcount : first.unitsUntil final .days =
      (wholeDayEnd first.wall final.wall).epochDay - first.wall.date.epochDay := by
    have hsame := inZone_eq (hzone'.trans (hz'.trans hzone.symm))
    rw [unitsUntil, hsame]
  have hsucc := wholeDayEnd_le_succ first.wall final.wall
  rw [hz'] at hwall'
  rw [hwall] at hfirst hcount hsucc
  rw [hwall'] at hfinal hcount hsucc
  rw [hcount]
  refine ⟨?_, fun hd hle ↦ ?_, fun hlt ↦ ?_⟩
  · have hl : Date.yearStart Date.minYear = -96465292 := by decide
    have hu : Date.yearStart (Date.maxYear + 1) = 95026237 := by decide
    unfold Count.greatest
    omega
  · have hpush := hz.wellSpaced.push_bounds (start.wall.date.epochDay * 86400)
    have hlower : Date.yearStart Date.minYear ≤
        start.zone.movedMidnight start.wall.date / 86400 := by
      unfold Zone.movedMidnight
      omega
    obtain ⟨-, hwhole, hnext⟩ :=
      wholeDayEnd_of_le (r := ⟨start.zone.movedMidnight start.wall.date, 0⟩)
      hlower hfinal.2 ((Reading.le_iff_second_le rfl).2 hle)
    have h₁ := Reading.second_le hwhole
    have h₂ : _ < _ ∨ _ := hnext
    simp only [Reading.onDate, Reading.ofDate, Reading.date, Reading.secondOfDay,
      Reading.secondsPerDay] at h₁ h₂ ⊢
    omega
  · exact Int.sub_nonpos_of_le
      (wholeDayEnd_le ((Reading.le_iff_second_le rfl).2 (Int.le_of_lt hlt)))

/-- The last step of a listing of days: as many whole days as lie between the moved midnights, if
both can be found. -/
structure CountsDays (start stop : ZonedTime) (last : Int) : Prop where
  lt_greatest : last < Count.greatest
  floored : last = -1 ∨ start.floor? .days ≠ none ∧ stop.floor? .days ≠ none
  forward : start.floor? .days ≠ none ∧ stop.floor? .days ≠ none →
    Date.yearStart Date.minYear ≤ start.wall.date.epochDay →
    start.zone.movedMidnight start.wall.date ≤ start.zone.movedMidnight stop.wall.date →
    last =
      (start.zone.movedMidnight stop.wall.date - start.zone.movedMidnight start.wall.date) / 86400
  back : start.floor? .days ≠ none ∧ stop.floor? .days ≠ none →
    start.zone.movedMidnight stop.wall.date < start.zone.movedMidnight start.wall.date → last ≤ 0

/-- The days of two instants line up: as many whole days lie between their moved midnights as
between their dates, or more that leave the calendar, and no gap moves the first instant's time of
day over midnight on a day in between. -/
structure DaysLineUp (start stop : ZonedTime) : Prop where
  inOrder : start.wall.date ≤ stop.wall.date
  floored : start.floor? .days ≠ none ∧ stop.floor? .days ≠ none
  reached : stop.wall.date.epochDay - start.wall.date.epochDay ≤
    (start.zone.movedMidnight stop.wall.date - start.zone.movedMidnight start.wall.date) / 86400
  ended :
    (start.zone.movedMidnight stop.wall.date - start.zone.movedMidnight start.wall.date) / 86400 ≤
      stop.wall.date.epochDay - start.wall.date.epochDay ∨
    start.plus? (stop.wall.date.epochDay - start.wall.date.epochDay + 1) .days = none
  onDay : ∀ count : Nat, count ≤ stop.wall.date.epochDay - start.wall.date.epochDay →
    start.plus? count .days ≠ none ∧
      start.wall.secondOfDay + start.zone.push (start.wall.second + 86400 * count) < 86400

end ZonedTime

theorem Listing.map_eq_range_iff {α : Type} {xs : List α} {f : α → Int} {first last : Int} :
    xs.map f = Int.range first last ↔
      xs.length = (last - first).toNat ∧ ∀ (i : Nat) (h : i < xs.length), f xs[i] = first + i := by
  rw [Int.range]
  refine ⟨fun h ↦ ?_, fun ⟨hlen, h⟩ ↦ ?_⟩
  · have hlen := congrArg List.length h
    rw [List.length_map, List.length_map, List.length_range] at hlen
    refine ⟨hlen, fun i hi ↦ ?_⟩
    have hget := congrArg (·[i]?) h
    simpa [hi, hlen ▸ hi] using hget
  · refine List.ext_getElem (by rw [List.length_map, List.length_map,
      List.length_range, hlen]) fun i hi hi' ↦ ?_
    rw [List.length_map] at hi
    simpa using h i hi

namespace NamePattern

variable {pattern : String} {p : NamePattern} {start stop : ZonedTime}

theorem floorTo?_days (hu : p.unit = .days) (t : ZonedTime) :
    t.floorTo? p.lowest = t.floor? .days := by
  rw [floorTo?_eq_floor? (by rw [hu]; decide), hu]

theorem countsDays_between (hu : p.unit = .days) (hz : start.zone.Regular)
    (hz' : stop.zone = start.zone) :
    start.CountsDays stop (Listing.between p start stop).last := by
  have hnone : (-1 : Int) < Count.greatest := by decide
  rw [Listing.between, floorTo?_days hu, floorTo?_days hu, hu]
  cases hf : start.floor? .days with
  | none => exact ⟨hnone, .inl rfl, fun h ↦ absurd hf h.1, fun h ↦ absurd hf h.1⟩
  | some first =>
    cases hf' : stop.floor? .days with
    | none => exact ⟨hnone, .inl rfl, fun h ↦ absurd hf' h.2, fun h ↦ absurd hf' h.2⟩
    | some final =>
      obtain ⟨hlast, hforward, hback⟩ := ZonedTime.unitsUntil_days hz hz' hf hf'
      refine ⟨hlast, .inr ⟨?_, ?_⟩, fun _ ↦ hforward, fun _ ↦ hback⟩
      · rw [hf]
        exact Option.some_ne_none _
      · rw [hf']
        exact Option.some_ne_none _

section Instants

variable {instants : List ZonedTime} (hz : start.zone.Regular) (hc : start.utc.InCalendar)
  (hn : start.utc.nano < 2000000000)
  (hall : (List.range instants.length).map (fun (i : Nat) ↦ start.plus? i .days) =
    instants.map some)

include hall in
theorem plus?_getElem {i : Nat} (hi : i < instants.length) :
    start.plus? i .days = some instants[i] :=
  Listing.getElem_of_map_range hall hi

include hz hc hn hall in
theorem epochDay_getElem {i : Nat} (hi : i < instants.length) :
    Date.yearStart Date.minYear ≤ start.wall.date.epochDay + i ∧
    instants[i].wall.date.epochDay =
    (start.wall.second + 86400 * i + start.zone.push (start.wall.second + 86400 * i)) / 86400 := by
  obtain ⟨hin, hwall⟩ := ZonedTime.wall_of_plus?_days hz hc hn (plus?_getElem hall hi)
  exact ⟨hin.1, by rw [← hwall]; rfl⟩

variable {last : Int}
  (hend : instants.length = (last + 1).toNat ∨
    instants.length < (last + 1).toNat ∧ start.plus? instants.length .days = none)

include hz hc hn hall hend in
theorem length_of_daysLineUp (hcount : start.CountsDays stop last) (h : start.DaysLineUp stop) :
    (instants.length : Int) = stop.wall.date.epochDay - start.wall.date.epochDay + 1 := by
  have hle : start.wall.date.epochDay ≤ stop.wall.date.epochDay := h.inOrder
  have hreached := h.reached
  obtain ⟨hfirst, -⟩ := h.onDay 0 (by omega)
  obtain ⟨t, ht⟩ := Option.ne_none_iff_exists'.1 hfirst
  obtain ⟨⟨hd, -⟩, -⟩ := ZonedTime.wall_of_plus?_days hz hc hn ht
  have hcounted := hcount.forward h.floored (by simp only at hd; omega) (by omega)
  refine Int.le_antisymm (Int.not_lt.1 fun hlt ↦ ?_) (Int.not_lt.1 fun hlt ↦ ?_)
  · rcases h.ended with hended | hnone
    · omega
    · have hsome := plus?_getElem hall
        (i := (stop.wall.date.epochDay - start.wall.date.epochDay + 1).toNat) (by omega)
      rw [Int.toNat_of_nonneg (by omega), hnone] at hsome
      cases hsome
  · rcases hend with hend | ⟨-, hnone⟩
    · omega
    · exact (h.onDay instants.length (by omega)).1 hnone

include hz hc hn hall hend in
theorem daysLineUp_of_dates (hcount : start.CountsDays stop last)
    (hle : start.wall.date ≤ stop.wall.date)
    (hdates : instants.map (fun t ↦ t.wall.date.epochDay) =
      Int.range start.wall.date.epochDay (stop.wall.date.epochDay + 1)) :
    start.DaysLineUp stop := by
  have hle : start.wall.date.epochDay ≤ stop.wall.date.epochDay := hle
  obtain ⟨hlen, hdays⟩ := Listing.map_eq_range_iff.1 hdates
  obtain ⟨hd, -⟩ := epochDay_getElem hz hc hn hall (i := 0) (by omega)
  rcases hcount.floored with hno | hfloors
  · omega
  have hreached : start.zone.movedMidnight start.wall.date ≤
      start.zone.movedMidnight stop.wall.date := by
    by_contra hlt
    have hnone := hcount.back hfloors (by omega)
    have hsame : start.wall.date.epochDay = stop.wall.date.epochDay := by omega
    unfold Zone.movedMidnight at hlt
    rw [hsame] at hlt
    exact hlt (Int.le_refl _)
  have hcounted := hcount.forward hfloors (by omega) hreached
  refine ⟨hle, hfloors, by omega, ?_, fun i hi ↦ ⟨?_, ?_⟩⟩
  · rcases hend with hend | ⟨-, hnone⟩
    · exact .inl (by omega)
    · rw [show (instants.length : Int) = stop.wall.date.epochDay - start.wall.date.epochDay + 1 by
        omega] at hnone
      exact .inr hnone
  · rw [plus?_getElem hall (i := i) (by omega)]
    exact Option.some_ne_none _
  · have hwall := (epochDay_getElem hz hc hn hall (i := i) (by omega)).2
    have hday : start.wall.date.epochDay = start.wall.second / 86400 := rfl
    have hsecond : start.wall.secondOfDay = start.wall.second % 86400 := rfl
    rw [hdays i (by omega)] at hwall
    omega

end Instants

/-- A listing of days goes from the date of the first instant to that of the last just if the days
line up. -/
theorem days_listed (hp : compile pattern = .ok p) (hu : p.unit = .days) (hz : start.zone.Regular)
    (hz' : stop.zone = start.zone) (hc : start.utc.InCalendar) (hn : start.utc.nano < 2000000000) :
    ∃ instants : List ZonedTime,
    (List.range instants.length).map (fun (i : Nat) ↦ start.plus? i .days) = instants.map some ∧
    (Listing.between p start stop).Yields (instants.map p.write) ∧
    (start.wall.date ≤ stop.wall.date ∧
      instants.map (fun t ↦ t.wall.date.epochDay) =
      Int.range start.wall.date.epochDay (stop.wall.date.epochDay + 1) ↔ start.DaysLineUp stop) ∧
    (start.DaysLineUp stop → (instants.map p.write).getLast? = some (p.write stop)) := by
  have hcount := countsDays_between hu hz hz'
  obtain ⟨instants, hall,
    hyields, hend⟩ := (Listing.between p start stop).exists_yields_toNat hcount.lt_greatest
  have hunit : (Listing.between p start stop).pattern.unit = .days := hu
  have hnext : (Listing.between p start stop).next = 0 := rfl
  have hstart : (Listing.between p start stop).start = start := rfl
  rw [hnext, hunit, hstart, Int.sub_zero, Int.zero_add] at hend
  rw [hunit, hstart, hnext] at hall
  simp only [Int.zero_add] at hall
  have hlength (h : start.DaysLineUp stop) :=
    length_of_daysLineUp hz hc hn hall hend hcount h
  have heach (h : start.DaysLineUp stop) (i : Nat) (hi : i < instants.length) :
      instants[i].wall.date.epochDay = start.wall.date.epochDay + i := by
    obtain ⟨-, hd⟩ := epochDay_getElem hz hc hn hall hi
    obtain ⟨-, hlate⟩ := h.onDay i (by have := hlength h; omega)
    have hpush := (hz.wellSpaced.push_bounds (start.wall.second + 86400 * i)).1
    have hday : start.wall.date.epochDay = start.wall.second / 86400 := rfl
    have hsecond : start.wall.secondOfDay = start.wall.second % 86400 := rfl
    omega
  refine ⟨instants, hall, hyields, ⟨fun ⟨hle, hdates⟩ ↦ ?_, fun h ↦ ⟨h.inOrder, ?_⟩⟩, fun h ↦ ?_⟩
  · exact daysLineUp_of_dates hz hc hn hall hend hcount hle hdates
  · have hl := hlength h
    exact Listing.map_eq_range_iff.2 ⟨by omega, heach h⟩
  · have hl := hlength h
    have hle : start.wall.date.epochDay ≤ stop.wall.date.epochDay := h.inOrder
    have hfinal : instants[instants.length - 1].wall.date.epochDay = stop.wall.date.epochDay := by
      rw [heach h _ (by omega)]
      omega
    have hsame : instants[instants.length - 1].wall.date = stop.wall.date := congrArg Date.mk hfinal
    rw [List.getLast?_map, List.getLast?_eq_getElem?, List.getElem?_eq_getElem (by omega),
      Option.map_some, write_of_date_eq hp (by rw [hu]; decide) hsame]

def numericDays : NamePattern := ⟨.dayOfMonth, .ofPattern "yyyy.MM.dd",
  ⟨"yyyy.MM.dd", [.number .yearOfEra 4 10, .literal ['.'], .number .monthOfYear 2 2, .literal ['.'],
    .number .dayOfMonth 2 2]⟩⟩

theorem compile_numericDays : compile "yyyy.MM.dd" = .ok numericDays := by
  have hplaced : Letter.dayOfMonth.isPlacedBy (.ofPattern "yyyy.MM.dd") :=
    Letter.isPlacedBy_of_isChain [.monthOfYear, .yearOfEra] (by decide) rfl
  exact compile_eq (by decide) hplaced (by decide)

theorem names_across_skipped_midnight :
    let start : ZonedTime := ⟨.americaSaoPaulo, ⟨1541253600, 0⟩⟩
    let stop : ZonedTime := ⟨.americaSaoPaulo, ⟨1541426400, 0⟩⟩
    ∃ instants : List ZonedTime,
    (Listing.between numericDays start stop).Yields (instants.map numericDays.write) ∧
      instants.map (fun t ↦ t.wall.date.epochDay) = [17838, 17839, 17840] ∧
      (instants.map numericDays.write).getLast? = some "2018.11.05" := by
  intro start stop
  have hspan : stop.wall.date.epochDay - start.wall.date.epochDay = 2 := by decide +kernel
  have hrange : Int.range start.wall.date.epochDay (stop.wall.date.epochDay + 1) =
      [17838, 17839, 17840] := by
    decide +kernel
  have hname : numericDays.write stop = "2018.11.05" := by decide +kernel
  have hdays : ∀ count < 3, start.plus? (count : Nat) .days ≠ none ∧
      start.wall.secondOfDay + start.zone.push (start.wall.second + 86400 * count) < 86400 := by
        decide +kernel
  have hlineUp : start.DaysLineUp stop := ⟨by decide +kernel, by decide +kernel, by decide +kernel,
    .inl (by decide +kernel), fun count hcount ↦ hdays count (by omega)⟩
  obtain ⟨instants, -, hyields, hdates, hlast⟩ := @days_listed _ _ start stop compile_numericDays
    (by decide) (by decide +kernel) rfl (by decide) (by decide)
  refine ⟨instants, hyields, ?_, ?_⟩
  · rw [← hrange]
    exact (hdates.2 hlineUp).2
  · rw [← hname]
    exact hlast hlineUp

/-- Not every local date is listed, even where every local date has an instant: the skipped midnight
of the first date is moved to an hour that the midnight of the last does not reach. -/
theorem days_not_always_listed :
    ¬ ∀ (pattern : String) (p : NamePattern) (start stop : ZonedTime),
      compile pattern = .ok p → p.unit = .days →
      start.zone ∈ Zone.table → stop.zone = start.zone →
      (∀ date : Date, date.InCalendar →
        ∃ t : ZonedTime, t.zone = start.zone ∧ t.utc.InCalendar ∧ t.wall.date = date) →
      start.utc.InCalendar → stop.utc.InCalendar →
      ¬ start.utc.IsLeapSecond → ¬ stop.utc.IsLeapSecond → start.utc ≤ stop.utc →
      ∃ instants : List ZonedTime, (Listing.between p start stop).Yields (instants.map p.write) ∧
        instants.map (fun t ↦ t.wall.date.epochDay) =
          Int.range start.wall.date.epochDay (stop.wall.date.epochDay + 1) ∧
        (instants.map p.write).getLast? = some (p.write stop) := by
  intro h
  have hmem : Zone.americaSaoPaulo ∈ Zone.table := by simp [Zone.table]
  have hdates (date : Date) (hd : date.InCalendar) :
      ∃ t : ZonedTime, t.zone = .americaSaoPaulo ∧ t.utc.InCalendar ∧ t.wall.date = date :=
    Zone.exists_wall_date (by decide +kernel) (by decide) (by decide +kernel) hd
  let start : ZonedTime := ⟨.americaSaoPaulo, ⟨1541340000, 0⟩⟩
  let stop : ZonedTime := ⟨.americaSaoPaulo, ⟨1541512800, 0⟩⟩
  obtain ⟨instants, hyields, hall, -⟩ :=
    h _ numericDays start stop compile_numericDays (by decide) hmem rfl hdates
    (by decide) (by decide) (by decide) (by decide) (by decide)
  have hsteps : ∀ i < 2, start.plus? (0 + (i : Nat)) .days =
      some ⟨.americaSaoPaulo, ⟨1541340000 + 86400 * i, 0⟩⟩ := by
    decide +kernel
  have htwo := (Listing.between numericDays start stop).yields_of_names 2 (by decide +kernel)
    fun i hi ↦ ⟨_, hsteps i hi, rfl⟩
  have hlength := congrArg List.length (hyields.eq htwo)
  have hlength' := congrArg List.length hall
  have hthree : (Int.range start.wall.date.epochDay (stop.wall.date.epochDay + 1)).length = 3 := by
    decide +kernel
  rw [List.length_map] at hlength hlength'
  rw [hthree, hlength] at hlength'
  cases hlength'

end NamePattern

end Almanac
