import Almanac.Proofs.Format.NearbyDays
import Almanac.Proofs.Listing.Days
import Almanac.Proofs.ZonedTime.Localize

namespace Almanac

namespace ZonedTime

variable {t r start stop first final : ZonedTime} {count : Nat}

def halfDay (t : ZonedTime) : Int := t.wall.period .halfDays

/-- How far the clock has been set forward by so many times twelve hours later. -/
def gained (t : ZonedTime) (count : Int) : Int :=
  t.zone.offsetAt (t.utc.second + 43200 * count) - t.offset

def halfDayAfter (t : ZonedTime) (count : Int) : Int :=
  count + (t.wall.second + t.gained count) / 43200

theorem plus?_halfDays (hn : t.utc.nano < 2000000000) (count : Nat) :
    ∃ reading : Reading, reading.second = t.utc.second + 43200 * count ∧
    t.plus? count .halfDays = covered? t.zone reading := by
  refine ⟨t.utc.advance (count * (43200 * Reading.nanosPerSecond)), ?_, rfl⟩
  rw [← Int.mul_assoc, Int.mul_comm (count : Int)]
  exact Reading.second_advance_of_nonneg hn (by omega)

theorem utc_of_plus?_halfDays (hn : t.utc.nano < 2000000000)
    (h : t.plus? count .halfDays = some r) :
    r.zone = t.zone ∧ r.utc.InCalendar ∧ r.utc.second = t.utc.second + 43200 * count := by
  obtain ⟨reading, hsecond, hplus⟩ := plus?_halfDays hn count
  obtain ⟨hc, rfl⟩ := eq_of_covered? (hplus.symm.trans h)
  exact ⟨rfl, hc, hsecond⟩

@[simp] theorem halfDayAfter_zero (t : ZonedTime) : t.halfDayAfter 0 = t.halfDay := by
  have hgained : t.gained 0 = 0 := by
    rw [gained, Int.mul_zero, Int.add_zero]
    exact Int.sub_self t.offset
  rw [halfDayAfter, hgained, Int.zero_add, Int.add_zero]
  rfl

theorem halfDay_of_plus? (hn : t.utc.nano < 2000000000) (h : t.plus? count .halfDays = some r) :
    r.halfDay = t.halfDayAfter count := by
  obtain ⟨hzone, -, hsecond⟩ := utc_of_plus?_halfDays hn h
  have hwall : r.wall.second = r.utc.second + t.zone.offsetAt r.utc.second := by rw [← hzone]; rfl
  have hwall' : t.wall.second = t.utc.second + t.offset := rfl
  rw [halfDay, Reading.period, halfDayAfter, gained, hwall, hsecond]
  omega

/-- The first instant of a half day, moved by a gap that its start lies in. -/
theorem wall_of_floor?_halfDays (hz : t.zone.Regular) (h : t.floor? .halfDays = some first) :
    first.zone = t.zone ∧ first.utc.InCalendar ∧
      first.wall = ⟨43200 * t.halfDay + t.zone.push (43200 * t.halfDay), 0⟩ := by
  have hstart : Reading.ofDate t.wall.date (t.wall.secondOfDay / 43200 * 43200) 0 =
      ⟨43200 * t.halfDay, 0⟩ := by
    simp only [Reading.ofDate, Reading.date, Reading.secondOfDay, Reading.secondsPerDay, halfDay,
      Reading.period, Reading.mk.injEq, and_true]
    omega
  change t.zone.attach? (.ofDate t.wall.date (t.wall.secondOfDay / 43200 * 43200) 0)
    (some t.offset) = some first at h
  rw [hstart] at h
  exact Zone.wall_of_attach? hz (Reading.not_isLeapSecond_ofPeriod _ .seconds) h

theorem unitsUntil_halfDays (h : first.utc.nano = 0) (h' : final.utc.nano = 0) :
    first.unitsUntil final .halfDays = (final.utc.second - first.utc.second).tdiv 43200 := by
  have hleap {t : ZonedTime} (h : t.utc.nano = 0) : ¬ t.utc.IsLeapSecond := by
    unfold Reading.IsLeapSecond Reading.nanosPerSecond
    omega
  have hlapse : final.utc.since first.utc =
      (final.utc.second - first.utc.second) * Reading.nanosPerSecond := by
    rw [Reading.since_eq (hleap h') (hleap h), Int.sub_mul]
    simp only [Reading.toNanos, h, h']
    omega
  change (final.utc.since first.utc).tdiv (43200 * Reading.nanosPerSecond) = _
  rw [hlapse]
  exact Int.mul_tdiv_mul_of_pos_left _ _ (by decide)

/-- A listing of half days takes as many steps as there are times twelve hours between the starts of
its first and last half day, or fewer if the next one leaves the calendar. -/
inductive CountsHalfDays (start stop : ZonedTime) (count : Nat) : Prop
  | unfloored : start.floor? .halfDays = none ∨ stop.floor? .halfDays = none → count = 0 →
      CountsHalfDays start stop count
  | floored {first final : ZonedTime} {last : Int} : start.floor? .halfDays = some first →
      stop.floor? .halfDays = some final → last = (final.utc.second - first.utc.second).tdiv 43200 →
      count = (last + 1).toNat ∨ count < (last + 1).toNat ∧ start.plus? count .halfDays = none →
      CountsHalfDays start stop count

/-- There are steps, none of them stays in the half day before, and the last leads to the half day
of the last instant. -/
structure HalfDaysPass (start stop : ZonedTime) (count : Nat) : Prop where
  nonempty : 0 < count
  passed : ∀ i : Nat, i + 1 < count → start.halfDayAfter i ≠ start.halfDayAfter (i + 1)
  reached : start.halfDayAfter (count - 1) = stop.halfDay

/-- There is a step for each half day, and the clock is never set so far that the time of day of the
first instant comes to lie in another half day. -/
structure HalfDaysLineUp (start stop : ZonedTime) (count : Nat) : Prop where
  counted : count = (stop.halfDay + 1 - start.halfDay).toNat
  kept : ∀ i : Nat, i < count →
    0 ≤ start.wall.second % 43200 + start.gained i ∧
    start.wall.second % 43200 + start.gained i < 43200

theorem halfDayAfter_eq_iff {i : Int} :
    start.halfDayAfter i = start.halfDay + i ↔ 0 ≤ start.wall.second % 43200 + start.gained i ∧
    start.wall.second % 43200 + start.gained i < 43200 := by
  rw [halfDayAfter, halfDay, Reading.period]
  omega

theorem HalfDaysLineUp.pass (h : start.HalfDaysLineUp stop count)
    (hle : start.halfDay ≤ stop.halfDay) :
    start.HalfDaysPass stop count := by
  have hcounted := h.counted
  have heach (i : Nat) (hi : i < count) : start.halfDayAfter i = start.halfDay + i :=
    halfDayAfter_eq_iff.2 (h.kept i hi)
  refine ⟨by omega, fun i hi ↦ ?_, ?_⟩
  · have hnext := heach (i + 1) hi
    rw [Int.natCast_succ] at hnext
    rw [heach i (by omega), hnext]
    omega
  · have hlast := heach (count - 1) (by omega)
    rw [Int.natCast_sub (by omega), Int.natCast_one] at hlast
    omega

theorem second_of_floor?_halfDays (hz : t.zone.Regular) (h : t.floor? .halfDays = some first) :
    first.utc.nano = 0 ∧ t.utc.second - 216000 < first.utc.second ∧
      first.utc.second < t.utc.second + 345600 := by
  obtain ⟨hzone, -, hwall⟩ := wall_of_floor?_halfDays hz h
  have hpush := hz.wellSpaced.push_bounds (43200 * t.halfDay)
  have hoffset := offset_bounds hz.wellSpaced
  have hoffset' := offset_bounds (t := first) (hzone ▸ hz.wellSpaced)
  have hsecond : first.utc.second + first.offset =
      43200 * t.halfDay + t.zone.push (43200 * t.halfDay) :=
    congrArg Reading.second hwall
  have hhalf : t.halfDay = (t.utc.second + t.offset) / 43200 := rfl
  refine ⟨congrArg Reading.nano hwall, ?_, ?_⟩
  · omega
  · omega

theorem lt_second_of_plus?_eq_none (hn : start.utc.nano < 2000000000) (hc' : stop.utc.InCalendar)
    (hr : start.plus? count .halfDays = some r)
    (hnone : start.plus? (count + 1 : Nat) .halfDays = none) :
    stop.utc.second < r.utc.second + 43200 := by
  obtain ⟨-, hin, hsecond⟩ := utc_of_plus?_halfDays hn hr
  obtain ⟨reading, hnext, hplus⟩ := plus?_halfDays hn (count + 1)
  rw [hnone] at hplus
  have hout : ¬ reading.InCalendar := by
    intro hin'
    rw [Zone.covered?_eq hin'] at hplus
    cases hplus
  rw [Reading.inCalendar_iff_second] at hin hout hc'
  omega

theorem CountsHalfDays.nearby (h : start.CountsHalfDays stop (count + 1)) (hz : start.zone.Regular)
    (hz' : stop.zone = start.zone) (hc' : stop.utc.InCalendar) (hn : start.utc.nano < 2000000000)
    (hr : start.plus? count .halfDays = some r) : r.wall.date.Nearby stop.wall.date := by
  obtain ⟨hzone, -, hsecond⟩ := utc_of_plus?_halfDays hn hr
  have hoffset := offset_bounds (t := r) (hzone ▸ hz.wellSpaced)
  have hoffset' := offset_bounds (t := stop) (hz' ▸ hz.wellSpaced)
  have hapart : r.utc.second < stop.utc.second + 604800 ∧
      stop.utc.second < r.utc.second + 604800 := by
    cases h with
    | unfloored _ hnone => cases hnone
    | @floored first final last hf hf' hlast hcount =>
      obtain ⟨-, hfirst⟩ := second_of_floor?_halfDays hz hf
      obtain ⟨-, hfinal⟩ := second_of_floor?_halfDays (hz' ▸ hz) hf'
      have hnear := Count.tdiv_near (show (0 : Int) < 43200 by decide)
        (final.utc.second - first.utc.second)
      rw [← hlast] at hnear
      rcases hcount with hall | ⟨hfewer, hnone⟩
      · omega
      · have hreached := lt_second_of_plus?_eq_none hn hc' hr hnone
        omega
  have hwall : r.wall.date.epochDay = (r.utc.second + r.offset) / 86400 := rfl
  have hwall' : stop.wall.date.epochDay = (stop.utc.second + stop.offset) / 86400 := rfl
  unfold Date.Nearby
  omega

theorem nearby_of_plus?_halfDays {next : ZonedTime} (hz : start.zone.Regular)
    (hn : start.utc.nano < 2000000000) (hr : start.plus? count .halfDays = some r)
    (hnext : start.plus? (count + 1 : Nat) .halfDays = some next) :
    r.wall.date.Nearby next.wall.date := by
  obtain ⟨hzone, -, hsecond⟩ := utc_of_plus?_halfDays hn hr
  obtain ⟨hzone', -, hsecond'⟩ := utc_of_plus?_halfDays hn hnext
  have hoffset := offset_bounds (t := r) (hzone ▸ hz.wellSpaced)
  have hoffset' := offset_bounds (t := next) (hzone' ▸ hz.wellSpaced)
  have hwall : r.wall.date.epochDay = (r.utc.second + r.offset) / 86400 := rfl
  have hwall' : next.wall.date.epochDay = (next.utc.second + next.offset) / 86400 := rfl
  unfold Date.Nearby
  omega

end ZonedTime

namespace NamePattern

variable {pattern : String} {p : NamePattern} {start stop : ZonedTime} {instants : List ZonedTime}

theorem floorTo?_halfDays (hu : p.unit = .halfDays) (t : ZonedTime) :
    t.floorTo? p.lowest = t.floor? .halfDays := by
  rw [lowest_of_halfDays hu]
  rfl

theorem last_between_halfDays (hu : p.unit = .halfDays) (hz : start.zone.Regular)
    (hz' : stop.zone = start.zone) :
    (Listing.between p start stop).last < Count.greatest ∧ ∀ count : Nat,
      (count = ((Listing.between p start stop).last + 1).toNat ∨
        count < ((Listing.between p start stop).last + 1).toNat ∧
        start.plus? count .halfDays = none) →
      start.CountsHalfDays stop count := by
  have hnone : (-1 : Int) < Count.greatest := by decide
  rw [Listing.between, floorTo?_halfDays hu, floorTo?_halfDays hu, hu]
  cases hf : start.floor? .halfDays with
  | none => exact ⟨hnone, fun count h ↦ .unfloored (.inl hf) (by simpa using h)⟩
  | some first =>
    cases hf' : stop.floor? .halfDays with
    | none => exact ⟨hnone, fun count h ↦ .unfloored (.inr hf') (by simpa using h)⟩
    | some final =>
      obtain ⟨hnano, -⟩ := ZonedTime.second_of_floor?_halfDays hz hf
      obtain ⟨hnano', -⟩ := ZonedTime.second_of_floor?_halfDays (hz' ▸ hz) hf'
      obtain ⟨-, hin, -⟩ := ZonedTime.wall_of_floor?_halfDays hz hf
      obtain ⟨-, hin', -⟩ := ZonedTime.wall_of_floor?_halfDays (hz' ▸ hz) hf'
      have hnear := Count.tdiv_near (show (0 : Int) < 43200 by decide)
        (final.utc.second - first.utc.second)
      simp only
      rw [ZonedTime.unitsUntil_halfDays hnano hnano']
      refine ⟨?_, fun count h ↦ .floored hf hf' rfl h⟩
      rw [Reading.inCalendar_iff_second] at hin hin'
      unfold Count.greatest
      omega

theorem exists_names_of_halfDays (hu : p.unit = .halfDays) (hz : start.zone.Regular)
    (hz' : stop.zone = start.zone) :
    ∃ instants : List ZonedTime,
    (List.range instants.length).map (fun (i : Nat) ↦ start.plus? i .halfDays) = instants.map some ∧
    p.names start stop = instants.map p.write ∧ start.CountsHalfDays stop instants.length := by
  obtain ⟨hlast, hcounts⟩ := last_between_halfDays hu hz hz'
  obtain ⟨instants, hall, hnames, hend⟩ := exists_names hlast
  rw [hu] at hall hend
  exact ⟨instants, hall, hnames, hcounts _ hend⟩

theorem write_eq_iff_halfDay_eq (hp : compile pattern = .ok p) (hu : p.unit = .halfDays)
    (ht : p.TellsHalfDays) {a b : ZonedTime} (hza : a.zone.Regular) (hzb : b.zone.Regular)
    (ha : a.utc.InCalendar) (hb : b.utc.InCalendar) (hnear : a.wall.date.Nearby b.wall.date) :
    p.write a = p.write b ↔ a.halfDay = b.halfDay := by
  refine ⟨fun h ↦ ?_, write_of_halfDay_eq hp hu⟩
  exact ht a.wall b.wall (ZonedTime.wall_nearCalendar hza.wellSpaced ha)
    (ZonedTime.wall_nearCalendar hzb.wellSpaced hb)
    hnear (String.ofList_injective h)

section Instants

variable (hp : compile pattern = .ok p) (hu : p.unit = .halfDays) (ht : p.TellsHalfDays)
  (hz : start.zone.Regular) (hn : start.utc.nano < 2000000000)
  (hall : (List.range instants.length).map (fun (i : Nat) ↦ start.plus? i .halfDays) =
  instants.map some)

include hn hall

theorem halfDay_getElem {i : Nat} (hi : i < instants.length) :
    instants[i].halfDay = start.halfDayAfter i :=
  ZonedTime.halfDay_of_plus? hn (Listing.getElem_of_map_range hall hi)

include hz in
theorem regular_getElem {i : Nat} (hi : i < instants.length) :
    instants[i].zone.Regular ∧ instants[i].utc.InCalendar := by
  obtain ⟨hzone, hcovered, -⟩ :=
    ZonedTime.utc_of_plus?_halfDays hn (Listing.getElem_of_map_range hall hi)
  exact ⟨hzone ▸ hz, hcovered⟩

include hp hu ht hz in
/-- No name is repeated at once just if each step passes into another half day. -/
theorem isChain_names_iff :
    (instants.map p.write).IsChain (· ≠ ·) ↔
    ∀ i : Nat, i + 1 < instants.length → start.halfDayAfter i ≠ start.halfDayAfter (i + 1) := by
  rw [List.isChain_map, List.isChain_iff_getElem]
  refine forall₂_congr fun i hi ↦ ?_
  have hi' : i < instants.length := Nat.lt_of_succ_lt hi
  obtain ⟨hregular, hcovered⟩ := regular_getElem hz hn hall hi'
  obtain ⟨hregular', hcovered'⟩ := regular_getElem hz hn hall hi
  have hnear := ZonedTime.nearby_of_plus?_halfDays hz hn (Listing.getElem_of_map_range hall hi')
    (Listing.getElem_of_map_range hall hi)
  have hsame := write_eq_iff_halfDay_eq hp hu ht hregular hregular' hcovered hcovered' hnear
  rw [halfDay_getElem hn hall, halfDay_getElem hn hall, Int.natCast_succ] at hsame
  exact not_congr hsame

include hp hu in
theorem head?_names (hpos : 0 < instants.length) :
    (instants.map p.write).head? = some (p.write start) := by
  have hsame : instants[0].halfDay = start.halfDay :=
    (halfDay_getElem hn hall hpos).trans start.halfDayAfter_zero
  rw [List.head?_map, List.head?_eq_getElem?, List.getElem?_eq_getElem hpos, Option.map_some,
    write_of_halfDay_eq hp hu hsame]

include hp hu ht hz in
/-- The last name is that of the last instant just if the last step leads to its half day. -/
theorem getLast?_names_iff (hz' : stop.zone = start.zone) (hc' : stop.utc.InCalendar)
    (hcounts : start.CountsHalfDays stop instants.length) (hpos : 0 < instants.length) :
    (instants.map p.write).getLast? = some (p.write stop) ↔
      start.halfDayAfter (instants.length - 1) = stop.halfDay := by
  obtain ⟨count, hcount⟩ : ∃ count, instants.length = count + 1 := ⟨instants.length - 1, by omega⟩
  have hi : count < instants.length := by omega
  rw [hcount] at hcounts
  obtain ⟨hregular, hcovered⟩ := regular_getElem hz hn hall hi
  have hnear := hcounts.nearby hz hz' hc' hn (Listing.getElem_of_map_range hall hi)
  have hsame := write_eq_iff_halfDay_eq hp hu ht hregular (hz' ▸ hz) hcovered hc' hnear
  rw [List.getLast?_map, List.getLast?_eq_getElem?, hcount, Nat.add_sub_cancel,
    List.getElem?_eq_getElem hi,
    Option.map_some, Option.some.injEq, hsame, halfDay_getElem hn hall hi, Int.natCast_succ,
    Int.add_sub_cancel]

/-- The steps go through the half days in turn just if there is one for each and the clock keeps the
first time of day in its half day. -/
theorem halfDays_eq_range_iff :
    instants.map ZonedTime.halfDay = Int.range start.halfDay (stop.halfDay + 1) ↔
    start.HalfDaysLineUp stop instants.length := by
  rw [Listing.map_eq_range_iff]
  constructor
  · rintro ⟨hlength, heach⟩
    refine ⟨hlength, fun i hi ↦ ZonedTime.halfDayAfter_eq_iff.1 ?_⟩
    rw [← halfDay_getElem hn hall hi]
    exact heach i hi
  · rintro ⟨hcounted, hkept⟩
    refine ⟨hcounted, fun i hi ↦ ?_⟩
    rw [halfDay_getElem hn hall hi]
    exact ZonedTime.halfDayAfter_eq_iff.2 (hkept i hi)

end Instants

/-- The names of half days between two instants of a zone begin with that of the first, end with
that of the last and repeat none at once just if each step passes into another half day and the last
one into that of the last instant. Each half day is listed once just if there is a step for each and
the clock keeps the first time of day in its half day. -/
theorem half_days_listed (hp : compile pattern = .ok p) (hu : p.unit = .halfDays)
    (ht : p.TellsHalfDays) (hz : start.zone.Regular) (hz' : stop.zone = start.zone)
    (hc' : stop.utc.InCalendar) (hn : start.utc.nano < 2000000000) :
    ∃ instants : List ZonedTime,
    (List.range instants.length).map (fun (i : Nat) ↦ start.plus? i .halfDays) = instants.map some ∧
    p.names start stop = instants.map p.write ∧ start.CountsHalfDays stop instants.length ∧
    ((p.names start stop).IsChain (· ≠ ·) ∧ (p.names start stop).head? = some (p.write start) ∧
      (p.names start stop).getLast? = some (p.write stop) ↔
      start.HalfDaysPass stop instants.length) ∧
    (instants.map ZonedTime.halfDay = Int.range start.halfDay (stop.halfDay + 1) ↔
      start.HalfDaysLineUp stop instants.length) := by
  obtain ⟨instants, hall, hnames, hcounts⟩ := exists_names_of_halfDays hu hz hz'
  refine ⟨instants, hall, hnames, hcounts, ?_, halfDays_eq_range_iff hn hall⟩
  have hlast := getLast?_names_iff hp hu ht hz hn hall hz' hc' hcounts
  rw [hnames, isChain_names_iff hp hu ht hz hn hall]
  constructor
  · rintro ⟨hpassed, hsome, hreached⟩
    have hpos : 0 < instants.length := by
      rw [List.length_pos_iff]
      rintro rfl
      cases hsome
    exact ⟨hpos, hpassed, (hlast hpos).1 hreached⟩
  · rintro ⟨hpos, hpassed, hreached⟩
    exact ⟨hpassed, head?_names hp hu hn hall hpos, (hlast hpos).2 hreached⟩

def numericHalfDays : NamePattern :=
  ⟨.amPmOfDay, .ofPattern "yyyy.MM.dd.a",
    ⟨"yyyy.MM.dd.a", [.number .yearOfEra 4 10, .literal ['.'], .number .monthOfYear 2 2,
      .literal ['.'], .number .dayOfMonth 2 2, .literal ['.'], .name .amPmOfDay Letter.halfDays 0]⟩⟩

theorem compile_numericHalfDays : compile "yyyy.MM.dd.a" = .ok numericHalfDays := by
  have hplaced : Letter.amPmOfDay.isPlacedBy (.ofPattern "yyyy.MM.dd.a") :=
    Letter.isPlacedBy_of_isChain [.dayOfMonth, .monthOfYear, .yearOfEra] (by decide) rfl
  exact compile_eq (by decide) hplaced (by decide)

theorem tellsHalfDays_numericHalfDays : numericHalfDays.TellsHalfDays :=
  tellsHalfDays_of_unambiguous compile_numericHalfDays rfl
    ⟨by decide, by decide, by decide, by decide⟩
    (by simp [numericHalfDays]) (by decide)

/-- The day on which Berlin set its clocks back in 2024 has twenty-five hours, which do not disturb
the names from one in the afternoon of the day before. -/
theorem names_across_longer_day :
    let start : ZonedTime := ⟨.europeBerlin, ⟨1729940400, 0⟩⟩
    let stop : ZonedTime := ⟨.europeBerlin, ⟨1730048400, 0⟩⟩
    (numericHalfDays.names start stop).IsChain (· ≠ ·) ∧
      (numericHalfDays.names start stop).head? = some "2024.10.26.PM" ∧
      (numericHalfDays.names start stop).getLast? = some "2024.10.27.PM" := by
  intro start stop
  have hberlin : Zone.europeBerlin.Regular := Zone.regular_of_mem_table (by simp [Zone.table])
  have hf : start.floor? .halfDays = some ⟨.europeBerlin, ⟨1729936800, 0⟩⟩ := by decide +kernel
  have hf' : stop.floor? .halfDays = some ⟨.europeBerlin, ⟨1730026800, 0⟩⟩ := by decide +kernel
  have hsome : ∀ i < 3, start.plus? (i : Nat) .halfDays ≠ none := by decide
  have hkept : ∀ i < 3, 0 ≤ start.wall.second % 43200 + start.gained (i : Nat) ∧
      start.wall.second % 43200 + start.gained (i : Nat) < 43200 := by decide +kernel
  have hlineUp : start.HalfDaysLineUp stop 3 := ⟨by decide +kernel, fun i hi ↦ hkept i hi⟩
  have hname : numericHalfDays.write start = "2024.10.26.PM" := by decide +kernel
  have hname' : numericHalfDays.write stop = "2024.10.27.PM" := by decide +kernel
  obtain ⟨instants, -, -, hcounts, hpass, -⟩ :=
    @half_days_listed _ _ start stop compile_numericHalfDays rfl
    tellsHalfDays_numericHalfDays hberlin rfl (by decide) (by decide)
  have hlength : instants.length = 3 := by
    cases hcounts with
    | unfloored hnone =>
      rw [hf, hf'] at hnone
      exact absurd hnone (by simp)
    | floored hfirst hfinal hlast hcount =>
      obtain rfl := Option.some.inj (hf.symm.trans hfirst)
      obtain rfl := Option.some.inj (hf'.symm.trans hfinal)
      subst hlast
      rcases hcount with hall | ⟨hfewer, hnone⟩
      · exact hall
      · exact absurd hnone (hsome _ hfewer)
  rw [← hname, ← hname']
  rw [hlength] at hpass
  exact hpass.2 (hlineUp.pass (by decide +kernel))

/-- The names do not always go on to the half day of the last instant: on the day of twenty-three
hours less than twelve hours lie between midnight and noon. -/
theorem half_days_not_always_listed :
    ¬ ∀ (pattern : String) (p : NamePattern) (start stop : ZonedTime),
    compile pattern = .ok p → p.unit = .halfDays → p.TellsHalfDays → start.zone ∈ Zone.table →
    stop.zone = start.zone → start.utc.InCalendar → stop.utc.InCalendar → ¬ start.utc.IsLeapSecond →
    ¬ stop.utc.IsLeapSecond → start.utc ≤ stop.utc → (p.names start stop).IsChain (· ≠ ·) ∧
    (p.names start stop).head? = some (p.write start) ∧
    (p.names start stop).getLast? = some (p.write stop) := by
  intro h
  have hmem : Zone.europeBerlin ∈ Zone.table := by simp [Zone.table]
  let start : ZonedTime := ⟨.europeBerlin, ⟨1711839600, 0⟩⟩
  let stop : ZonedTime := ⟨.europeBerlin, ⟨1711879200, 0⟩⟩
  have hnames : numericHalfDays.names start stop = ["2024.03.31.AM"] := by decide +kernel
  have hname : numericHalfDays.write stop = "2024.03.31.PM" := by decide +kernel
  obtain ⟨-, -, hlast⟩ :=
    h _ numericHalfDays start stop compile_numericHalfDays rfl tellsHalfDays_numericHalfDays hmem
    rfl (by decide) (by decide) (by decide) (by decide) (by decide)
  rw [hnames, hname] at hlast
  exact absurd hlast (by decide)

end NamePattern

end Almanac
