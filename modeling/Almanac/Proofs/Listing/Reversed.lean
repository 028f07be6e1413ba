import Almanac.Proofs.Listing.Days
import Almanac.Proofs.ZonedTime.Limits

namespace Almanac

theorem Count.tdiv_neg_iff {n length : Int} (hl : 0 < length) :
    n.tdiv length < 0 ↔ n ≤ -length := by
  rcases Int.le_total 0 n with h | h
  · have hfloor := tdiv_floor hl h
    omega
  · obtain ⟨-, hle, hlt⟩ := tdiv_ceil hl h
    constructor
    · intro hneg
      have hwhole : n.tdiv length * length ≤ -1 * length :=
        Int.mul_le_mul_of_nonneg_right (Int.le_sub_one_of_lt hneg) (Int.le_of_lt hl)
      omega
    · intro hback
      by_contra hnonneg
      have hwhole : -1 * length ≤ (n.tdiv length - 1) * length :=
        Int.mul_le_mul_of_nonneg_right (by omega) (Int.le_of_lt hl)
      omega

@[simp] theorem Count.clamp_neg_iff {n : Int} : clamp n < 0 ↔ n < 0 := by
  unfold clamp least greatest
  omega

namespace Date

variable {d e : Date} {unit : CalendarUnit}

theorem moved_back_lt (hu : unit ∈ CalendarUnit.dated) (d : Date) : d.moved (-1) unit < d := by
  have hself : ¬ d ≤ d.moved (-1) unit := by
    rw [le_moved_iff hu]
    have hspan := unit.span_pos
    omega
  exact Int.not_le.1 hself

theorem unitsUntil_neg_iff (hu : unit ∈ CalendarUnit.dated) :
    d.unitsUntil e unit < 0 ↔ e ≤ d.moved (-1) unit := by
  rcases Int.le_total d.epochDay e.epochDay with h | h
  · have hfloor := (unitsUntil_floor hu h).1
    have hback : ¬ e.epochDay ≤ (d.moved (-1) unit).epochDay :=
      Int.not_le.2 (Int.lt_of_lt_of_le (moved_back_lt hu d) h)
    exact ⟨fun hneg ↦ absurd hfloor (Int.not_le.2 hneg), fun hle ↦ absurd hle hback⟩
  · obtain ⟨-, hle, hlt⟩ := unitsUntil_ceil hu h
    rw [le_moved_iff hu]
    cases unit with
    | days | weeks | months | quarters | years =>
      simp only [CalendarUnit.span] at hle hlt ⊢
      omega
    | _ => exact absurd hu (by decide)

end Date

namespace ZonedTime

variable {t first final : ZonedTime} {unit : CalendarUnit}

/-- The instant lies a whole unit or more before a later one: in time elapsed, on the wall clock of
the later one, or in the number of its week-based year or of its era. -/
def UnitBefore (t later : ZonedTime) (unit : CalendarUnit) : Prop :=
  match unit.nanoseconds?, unit with
  | some length, _ => t.utc.since later.utc ≤ -length
  | none, .weekBasedYears => t.wall.date.weekYear < later.wall.date.weekYear
  | none, .eras => t.wall.date.era < later.wall.date.era
  | none, unit => t.wall ≤ later.movedWall (-1) unit

theorem wholeDayEnd_le_iff {r r' : Reading} {d : Date}
    (hl : Date.yearStart Date.minYear ≤ r'.date.epochDay + 1)
    (hu : r.date.epochDay < Date.yearStart (Date.maxYear + 1)) (h : r' ≤ r) :
    wholeDayEnd r r' ≤ d ↔ r' ≤ r.onDate d := by
  obtain ⟨-, hwhole, hnext⟩ := wholeDayEnd_of_ge hl hu h
  constructor
  · intro hle
    exact Reading.le_onDate_of_le hle hwhole
  · intro hle
    by_contra hbefore
    have hlt := Reading.onDate_lt_of_lt (Int.not_le.1 hbefore) hnext
    exact Reading.lt_iff_not_le.1 hlt hle

/-- Dates on the wall clock are counted back to the readings at or before the one a unit back. -/
theorem dated_unitsUntil_neg_iff (hu : unit ∈ CalendarUnit.dated) (hz : final.zone = first.zone)
    (hs : final.zone.WellSpaced) (hc : final.utc.InCalendar) (hw : first.wall.InCalendar) :
    first.unitsUntil final unit < 0 ↔ final.wall ≤ first.movedWall (-1) unit := by
  have hoffset := offset_bounds hs
  have hsecond := Reading.inCalendar_iff_second.1 hc
  have hfirst := Date.inCalendar_iff_epochDay.1 hw
  have hday : final.wall.date.epochDay = (final.utc.second + final.offset) / 86400 := rfl
  have hmin : Date.yearStart Date.minYear = -96465292 := by decide
  have hmax : Date.yearStart (Date.maxYear + 1) = 95026237 := by decide
  have hback := Date.moved_back_lt hu first.wall.date
  rw [unitsUntil_eq_date hu, inZone_eq hz, Date.unitsUntil_neg_iff hu, movedWall]
  by_cases h : final.wall ≤ first.wall
  · exact wholeDayEnd_le_iff (by omega) (by omega) h
  · have hlt := Reading.lt_iff_not_le.2 h
    obtain ⟨hreached, -, -⟩ := @wholeDayEnd_of_le first.wall final.wall (by omega) (by omega)
      (Reading.le_of_lt hlt)
    have hself : first.wall.onDate first.wall.date ≤ first.wall := by
      simpa [Reading.onDate] using .inr ⟨rfl, Nat.le_refl _⟩
    have hbefore := Reading.onDate_le_of_le (Int.le_of_lt hback) hself
    constructor
    · intro hle
      exact absurd (Int.lt_of_lt_of_le hback hreached) (Int.not_lt.2 hle)
    · intro hle
      rw [Reading.le_def] at hle hbefore
      rw [Reading.lt_def] at hlt
      omega

theorem unitsUntil_neg_iff (hz : final.zone = first.zone) (hs : first.zone.WellSpaced)
    (hc : final.utc.InCalendar) (hw : unit ∈ CalendarUnit.dated → first.wall.InCalendar) :
    first.unitsUntil final unit < 0 ↔ final.UnitBefore first unit := by
  cases unit with
  | nanos =>
    rw [unitsUntil, Count.clamp_neg_iff]
    change _ ↔ final.utc.since first.utc ≤ -1
    omega
  | millis | seconds | minutes | hours | halfDays => exact Count.tdiv_neg_iff (by decide)
  | days | weeks | months | quarters | years =>
    exact dated_unitsUntil_neg_iff (by decide) hz (hz ▸ hs) hc (hw (by decide))
  | weekBasedYears =>
    rw [unitsUntil, inZone_eq hz]
    change _ ↔ final.wall.date.weekYear < first.wall.date.weekYear
    omega
  | eras =>
    rw [unitsUntil, inZone_eq hz]
    change _ ↔ final.wall.date.era < first.wall.date.era
    omega

theorem utc_plus?_zero (hz : t.zone = .utc) (hc : t.utc.InCalendar) (hl : ¬ t.utc.IsLeapSecond)
    (hu : unit ∈ CalendarUnit.regular) : t.plus? 0 unit = some t := by
  have hsplit : unit ∈ CalendarUnit.elapsed ∨ unit ∈ CalendarUnit.dated := List.mem_append.1 hu
  have hregular : t.zone.Regular := hz ▸ Zone.utc_regular
  rcases hsplit with hu | hu
  · obtain ⟨length, -, -, hplus⟩ := elapsed_cases hu
    rw [hplus, Int.zero_mul]
    exact advance?_zero hc
  · exact plus?_zero hregular.wellSpaced hc (wall_inCalendar_of_utc hz hc) hl hu (.inl hregular)

end ZonedTime

theorem Listing.toList_eq_nil_iff (l : Listing) :
    l.toList = [] ↔ l.last < l.next ∨ l.instant? = none := by
  by_cases h : l.last < l.next
  · have hcount : (l.last - l.next + 1).toNat = 0 := by omega
    rw [toList, hcount]
    exact ⟨fun _ ↦ .inl h, fun _ ↦ rfl⟩
  · obtain ⟨count, hcount⟩ : ∃ count : Nat, (l.last - l.next + 1).toNat = count + 1 :=
      ⟨(l.last - l.next).toNat, by omega⟩
    rw [toList, hcount, take]
    cases ht : l.instant? with
    | none =>
      rw [step_of_none h ht]
      exact ⟨fun _ ↦ .inr rfl, fun _ ↦ rfl⟩
    | some t =>
      rw [step_of_some h ht]
      simp [h]

theorem Listing.toList_of_one {l : Listing} {t : ZonedTime} (hl : l.last = l.next)
    (ht : l.instant? = some t) :
    l.toList = [l.pattern.write t] := by
  have hone : (l.last - l.next + 1).toNat = 1 := by
    rw [hl, Int.sub_self]
    rfl
  rw [toList, hone, take, step_of_some (by omega) ht]
  rfl

namespace NamePattern

variable {p : NamePattern} {start stop first final : ZonedTime}

theorem between_of_floors (hf : start.floorTo? p.lowest = some first)
    (hf' : stop.floorTo? p.lowest = some final) :
    Listing.between p start stop = ⟨p, start, 0, first.unitsUntil final p.unit⟩ := by
  rw [Listing.between, hf, hf']

theorem between_of_no_floor (h : start.floorTo? p.lowest = none ∨ stop.floorTo? p.lowest = none) :
    Listing.between p start stop = ⟨p, start, 0, -1⟩ := by
  rcases h with h | h
  · rw [Listing.between, h]
  · rw [Listing.between, h]
    cases start.floorTo? p.lowest <;> rfl

/-- In UTC one name is listed towards an earlier instant of the same period, and none towards those
before it. -/
theorem utc_names_of_reversed (hu : p.unit ∈ CalendarUnit.measured) (hz : start.zone = .utc)
    (hz' : stop.zone = .utc) (hc : start.utc.InCalendar) (hc' : stop.utc.InCalendar)
    (hl : ¬ start.utc.IsLeapSecond) (hl' : ¬ stop.utc.IsLeapSecond) (hlt : stop.utc < start.utc)
    (hf : start.floorTo? p.lowest = some first) (hf' : stop.floorTo? p.lowest = some final) :
    p.names start stop =
      if stop.utc.period p.unit = start.utc.period p.unit then [p.write start] else [] := by
  have hbetween := between_of_floors hf hf'
  rcases List.mem_cons.1 hu with hnanos | hregular
  · have hnano : stop.utc.toNanos < start.utc.toNanos := (Reading.lt_iff_toNanos hl' hl).1 hlt
    have hneg : Count.clamp (stop.utc.since start.utc) < 0 := by
      rw [Count.clamp_neg_iff, Reading.since_eq hl' hl]
      omega
    have hdiffer : stop.utc.period p.unit ≠ start.utc.period p.unit := by
      rw [hnanos]
      exact Int.ne_of_lt hnano
    rw [if_neg hdiffer, names, between_of_nanos hnanos]
    exact (Listing.toList_eq_nil_iff _).2 (.inl hneg)
  · obtain ⟨zone, r⟩ := start
    obtain ⟨zone', r'⟩ := stop
    obtain rfl : zone = .utc := hz
    obtain rfl : zone' = .utc := hz'
    have hle : r'.period p.unit ≤ r.period p.unit :=
      Reading.period_le hl' (Reading.le_of_lt hlt) p.unit
    have hplus := ZonedTime.utc_plus?_zero rfl hc hl hregular
    rw [utc_floorTo?_lowest hregular hl hc] at hf
    rw [utc_floorTo?_lowest hregular hl' hc'] at hf'
    rw [(ZonedTime.eq_of_covered? hf).2, (ZonedTime.eq_of_covered? hf').2,
      ZonedTime.utc_unitsUntil_ofPeriod hregular]
      at hbetween
    rw [names, hbetween]
    split
    · rename_i hsame
      exact Listing.toList_of_one (Int.sub_eq_zero.2 hsame) hplus
    · rename_i hdiffer
      have hneg : r'.period p.unit - r.period p.unit < 0 := by
        change r'.period p.unit ≠ r.period p.unit at hdiffer
        omega
      exact (Listing.toList_eq_nil_iff _).2 (.inl hneg)

/-- Towards an earlier instant a listing is empty if one of the two floors is missing, and otherwise
just if the floor of the earlier instant lies a whole unit before that of the later one, or if even
a step of no units leaves the calendar. In UTC the one name listed, if any, is that of the period in
which both instants lie. -/
theorem names_of_reversed (hz : start.zone.WellSpaced) (hz' : stop.zone = start.zone)
    (hc : start.utc.InCalendar) (hc' : stop.utc.InCalendar) (hlt : stop.utc < start.utc) :
    (start.floorTo? p.lowest = none ∨ stop.floorTo? p.lowest = none → p.names start stop = []) ∧
    ∀ first final, start.floorTo? p.lowest = some first → stop.floorTo? p.lowest = some final →
      ((p.unit ∈ CalendarUnit.dated → first.wall.InCalendar) →
        (p.names start stop = [] ↔ final.UnitBefore first p.unit ∨ start.plus? 0 p.unit = none)) ∧
      (start.zone = .utc → p.unit ∈ CalendarUnit.measured → ¬ start.utc.IsLeapSecond →
        ¬ stop.utc.IsLeapSecond →
        p.names start stop =
          if stop.utc.period p.unit = start.utc.period p.unit then [p.write start] else []) := by
  refine ⟨fun hnone ↦ ?_, fun first final hf hf' ↦ ⟨fun hw ↦ ?_, fun hutc hu hl hl' ↦ ?_⟩⟩
  · rw [names, between_of_no_floor hnone]
    rfl
  · obtain ⟨hzone, -⟩ := ZonedTime.covered_of_floorTo? hc hf
    obtain ⟨hzone', hcovered⟩ := ZonedTime.covered_of_floorTo? hc' hf'
    have hcount := ZonedTime.unitsUntil_neg_iff (hzone'.trans (hz'.trans hzone.symm))
      (hzone.symm ▸ hz) hcovered hw
    rw [names, between_of_floors hf hf', Listing.toList_eq_nil_iff, ← hcount]
    rfl
  · exact utc_names_of_reversed hu hutc (hz'.trans hutc) hc hc' hl hl' hlt hf hf'

theorem names_from_evening_to_morning :
    let evening : ZonedTime := ⟨.utc, .ofDate (.ofYmd 2024 3 5) 72000 0⟩
    let morning : ZonedTime := ⟨.utc, .ofDate (.ofYmd 2024 3 5) 28800 0⟩
    morning.utc < evening.utc ∧ numericDays.names evening morning = ["2024.03.05"] := by
  intro evening morning
  have hlt : morning.utc < evening.utc := by decide
  have hf : evening.floorTo? numericDays.lowest = some ⟨.utc, .ofDate (.ofYmd 2024 3 5) 0 0⟩ := by
    decide +kernel
  have hf' : morning.floorTo? numericDays.lowest = some ⟨.utc, .ofDate (.ofYmd 2024 3 5) 0 0⟩ := by
    decide +kernel
  have hname : numericDays.write evening = "2024.03.05" := by decide +kernel
  obtain ⟨-, hfloors⟩ :=
    @names_of_reversed numericDays evening morning Zone.utc_regular.wellSpaced rfl (by decide)
      (by decide) hlt
  have hlisted := (hfloors _ _ hf hf').2 rfl (by decide) (by decide) (by decide)
  rw [if_pos (by decide), hname] at hlisted
  exact ⟨hlt, hlisted⟩

/-- Listings towards an earlier instant are not always empty. -/
theorem reversed_not_always_empty :
    ¬ ∀ (pattern : String) (p : NamePattern) (start stop : ZonedTime),
    compile pattern = .ok p → start.zone ∈ Zone.table → stop.zone = start.zone →
    start.utc.InCalendar → stop.utc.InCalendar → ¬ start.utc.IsLeapSecond →
    ¬ stop.utc.IsLeapSecond → stop.utc < start.utc → p.names start stop = [] := by
  intro h
  have hday : numericDays.names ⟨.utc, .ofDate (.ofYmd 2024 3 5) 72000 0⟩
      ⟨.utc, .ofDate (.ofYmd 2024 3 5) 28800 0⟩ =
      ["2024.03.05"] := by decide +kernel
  have hempty := h _ numericDays ⟨.utc, .ofDate (.ofYmd 2024 3 5) 72000 0⟩
    ⟨.utc, .ofDate (.ofYmd 2024 3 5) 28800 0⟩
    compile_numericDays (by simp [Zone.table]) rfl (by decide) (by decide) (by decide)
    (by decide) (by decide)
  rw [hday] at hempty
  cases hempty

end NamePattern

end Almanac
