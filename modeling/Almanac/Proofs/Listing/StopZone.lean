import Almanac.Proofs.Listing.Days
import Almanac.Proofs.ZonedTime.WholeHours

namespace Almanac

namespace Listing

variable {l : Listing} {start stop stop' : ZonedTime} {p : NamePattern}

theorem getElem?_take_eq_some_iff {count i : Nat} {name : String}
    (hcount : count = (l.last - l.next + 1).toNat) :
    (l.take count).1[i]? = some name ↔ l.next + i ≤ l.last ∧
      (∀ j < i, l.start.plus? (l.next + j) l.pattern.unit ≠ none) ∧
      ∃ t, l.start.plus? (l.next + i) l.pattern.unit = some t ∧ l.pattern.write t = name := by
  induction count generalizing l i with
  | zero =>
    have hend : ¬ l.next + i ≤ l.last := by omega
    simp [take, hend]
  | succ count ih =>
    have hnext : ¬ l.last < l.next := by omega
    have hfirst : l.start.plus? (l.next + (0 : Nat)) l.pattern.unit = l.instant? := by
      rw [Int.natCast_zero, Int.add_zero, instant?]
    cases ht : l.instant? with
    | none =>
      rw [ht] at hfirst
      rw [take, step_of_none hnext ht]
      refine iff_of_false (by simp) ?_
      rintro ⟨-, hbefore, t, hsome, -⟩
      cases i with
      | zero => cases hfirst.symm.trans hsome
      | succ i => exact hbefore 0 (Nat.succ_pos i) hfirst
    | some t =>
      rw [ht] at hfirst
      rw [take, step_of_some hnext ht]
      cases i with
      | zero =>
        have hle : l.next + (0 : Nat) ≤ l.last := by omega
        rw [List.getElem?_cons_zero, hfirst, Option.some.injEq]
        refine ⟨fun hname ↦ ⟨hle, fun j hj ↦ absurd hj (Nat.not_lt_zero j), t, rfl, hname⟩, ?_⟩
        rintro ⟨-, -, t', ht', hname⟩
        exact Option.some.inj ht' ▸ hname
      | succ i =>
        have hrest := ih (l := { l with next := l.next + 1 }) (i := i) (by simp only; omega)
        have hshift (j : Nat) : l.next + 1 + (j : Int) = l.next + (j + 1 : Nat) := by omega
        simp only [hshift] at hrest
        rw [List.getElem?_cons_succ, hrest, Nat.forall_lt_succ_left, hfirst]
        simp only [ne_eq, reduceCtorEq, not_false_eq_true, true_and]

/-- Two listings from one instant hold the same names just if they go equally far within the
calendar. -/
theorem toList_eq_iff (p : NamePattern) (start : ZonedTime) (last last' : Int) :
    toList ⟨p, start, 0, last⟩ = toList ⟨p, start, 0, last'⟩ ↔
      ∀ i : Nat, (∀ j ≤ i, start.plus? j p.unit ≠ none) → (i ≤ last ↔ i ≤ last') := by
  have hget (last : Int) (i : Nat) (name : String) : (toList ⟨p, start, 0, last⟩)[i]? = some name ↔
      i ≤ last ∧ (∀ j < i, start.plus? j p.unit ≠ none) ∧
        ∃ t, start.plus? i p.unit = some t ∧ p.write t = name := by
    have hget := @getElem?_take_eq_some_iff ⟨p, start, 0, last⟩ _ i name rfl
    simp only [Int.zero_add] at hget
    exact hget
  constructor
  · intro h i hin
    obtain ⟨t, ht⟩ := Option.ne_none_iff_exists'.1 (hin i (Nat.le_refl i))
    have hreached (last : Int) : (toList ⟨p, start, 0, last⟩)[i]? = some (p.write t) ↔
        i ≤ last := by
      rw [hget]
      exact and_iff_left ⟨fun j hj ↦ hin j (Nat.le_of_lt hj), t, ht, rfl⟩
    rw [← hreached last, h, hreached last']
  · intro h
    refine List.ext_getElem? fun i ↦ Option.ext fun name ↦ ?_
    rw [hget, hget]
    refine and_congr_left ?_
    rintro ⟨hbefore, t, ht, -⟩
    refine h i fun j hj ↦ ?_
    rcases Nat.lt_or_eq_of_le hj with hlt | rfl
    · exact hbefore j hlt
    · rw [ht]
      exact Option.some_ne_none t

/-- The zone of the last instant tells in no other way than by the start of that instant's
period. -/
theorem between_congr
    (h : (stop.floorTo? p.lowest).map ZonedTime.utc = (stop'.floorTo? p.lowest).map ZonedTime.utc) :
    between p start stop = between p start stop' := by
  unfold between
  cases hf : stop.floorTo? p.lowest with
  | none =>
    rw [hf, Option.map_none, eq_comm, Option.map_eq_none_iff] at h
    rw [h]
  | some final =>
    rw [hf, Option.map_some, eq_comm, Option.map_eq_some_iff] at h
    obtain ⟨final', hf', hutc⟩ := h
    rw [hf']
    -- Units are counted to an instant, in the zone of the first floor.
    have hunits (first : ZonedTime) :
        first.unitsUntil final' p.unit = first.unitsUntil final p.unit := by
      unfold ZonedTime.unitsUntil ZonedTime.inZone
      rw [hutc]
    cases hs : start.floorTo? p.lowest with
    | none => rfl
    | some first => simp only [hunits]

end Listing

def CalendarUnit.secondParts : List CalendarUnit := [.nanos, .millis, .seconds]

namespace ZonedTime

variable {t : ZonedTime} {unit : CalendarUnit}

theorem reading_floor?_of_secondParts (hu : unit ∈ CalendarUnit.secondParts) (r : Reading) :
    r.floor? unit = some ⟨r.second, (r.flooredTime unit).2⟩ := by
  have hsame (nano : Nat) : (some (Reading.ofDate r.date r.secondOfDay nano)) =
      some ⟨r.second, nano⟩ :=
    congrArg some (Reading.ofDate_date ⟨r.second, nano⟩)
  simp only [CalendarUnit.secondParts, List.mem_cons, List.not_mem_nil, or_false] at hu
  rcases hu with rfl | rfl | rfl
  · exact hsame r.nano
  · exact hsame (r.nano / 1000000 * 1000000)
  · rw [← hsame, Reading.floor?, Reading.flooredTime, Int.ediv_one, Int.mul_one]
    rfl

/-- Every clock shows the same seconds, so flooring within one is flooring on the clock of UTC. -/
theorem utc_floor?_of_secondParts (hz : t.zone.Regular) (hc : t.utc.InCalendar)
    (hu : unit ∈ CalendarUnit.secondParts) :
    (t.floor? unit).map ZonedTime.utc = t.utc.floor? unit := by
  let floor : ZonedTime := ⟨t.zone, t.utc.second, (t.utc.flooredTime unit).2⟩
  have hin : floor.utc.InCalendar := hc
  have hback : floor.reattach? floor.wall = some floor := reattach?_wall hz hin
  have hnano : (t.wall.flooredTime unit).2 = (t.utc.flooredTime unit).2 := by
    cases unit <;> rfl
  rw [floor?_eq_of_regular fun _ ↦ ⟨hz, hc⟩, reading_floor?_of_secondParts hu,
    reading_floor?_of_secondParts hu, hnano,
    Option.bind_some]
  exact congrArg (Option.map ZonedTime.utc) hback

theorem utc_floor?_of_wholeHours (hz : t.zone.Regular) (hw : t.zone.WholeHours)
    (hc : t.utc.InCalendar) (hu : unit ∈ CalendarUnit.hourParts) :
    (t.floor? unit).map ZonedTime.utc = t.utc.floor? unit := by
  have hwhole := CalendarUnit.wholeSecond_of_hourParts hu
  have htime : unit.isTimeBased ∨ unit = .days := by
    have hall : ∀ unit ∈ CalendarUnit.hourParts, unit.isTimeBased := by decide
    exact .inl (hall unit hu)
  rw [(floor?_of_wholeHours hz.wellSpaced hw hu hc).resolve_right fun h ↦ h.2.1 hz,
    Reading.floor?_eq_ofPeriod (absurd · (CalendarUnit.not_subsecond hwhole)), if_pos htime]
  rfl

theorem wholeDayEnd_of_midnight {d : Date} {r : Reading} (h : d.epochDay ≤ r.date.epochDay) :
    wholeDayEnd (.ofDate d 0 0) r = r.date := by
  have hdate := Reading.date_midnight d
  have hmidnight : ¬ r.EarlierInDay (.ofDate d 0 0) := by
    have hsecond := r.secondOfDay_bounds
    rw [Reading.EarlierInDay, Reading.secondOfDay_midnight]
    rintro (hlt | ⟨-, hlt⟩)
    · omega
    · exact Nat.not_lt_zero _ hlt
  rw [wholeDayEnd, if_neg fun h ↦ hmidnight h.2, if_neg fun hlt ↦ Int.not_lt.2 h (hdate ▸ hlt.1)]

theorem monthsUntil_of_firstOfMonth {index : Int} {e : Date} (h : index ≤ e.monthIndex) :
    (Date.firstOfMonth index).monthsUntil e = e.monthIndex - index := by
  have hday := Date.day_bounds e
  have hlast := e.day_le
  rw [Date.monthsUntil, Date.monthIndex_firstOfMonth, Date.day_firstOfMonth,
    Int.tdiv_eq_ediv_of_nonneg (by omega)]
  omega

theorem utc_unitsUntil_of_le (hu : unit ∈ CalendarUnit.regular)
    (hw : unit ∈ CalendarUnit.wholeSecond) {r : Reading}
    (hl : ¬ r.IsLeapSecond) {number : Int} (h : .ofPeriod number unit ≤ r) (zone : Zone) :
    (⟨.utc, .ofPeriod number unit⟩ : ZonedTime).unitsUntil ⟨zone, r⟩ unit =
    r.period unit - number := by
  have hperiod := (Reading.ofPeriod_le_iff hw).1 h
  have hleap := Reading.not_isLeapSecond_ofPeriod number unit
  have hnano := Reading.nano_lt hl
  have hlapse : 0 ≤ r.toNanos - (Reading.ofPeriod number unit).toNanos :=
    Int.sub_nonneg_of_le ((Reading.le_iff_toNanos hleap hl).1 h)
  have hdate := Reading.date_le h
  have hmidnight {d : Date} (he : Reading.ofPeriod number unit = .ofDate d 0 0) :
      (ZonedTime.wall ⟨.utc, .ofPeriod number unit⟩).date = d ∧
      wholeDayEnd (ZonedTime.wall ⟨.utc, .ofPeriod number unit⟩) (ZonedTime.wall ⟨.utc, r⟩) =
      r.date := by
    rw [he, Reading.date_midnight] at hdate
    simp [he, wholeDayEnd_of_midnight hdate]
  cases unit with
  | nanos | weekBasedYears | eras => exact absurd hu (by decide)
  | millis => exact absurd hw (by decide)
  | seconds | minutes | hours | halfDays =>
    change (r.since (.ofPeriod number _)).tdiv _ = _
    rw [Reading.since_eq hl hleap, Int.tdiv_eq_ediv_of_nonneg hlapse]
    simp only [Reading.period, Reading.ofPeriod, Reading.toNanos, Reading.nanosPerSecond]
    omega
  | days =>
    obtain ⟨hday, hend⟩ := hmidnight rfl
    change (wholeDayEnd _ _).epochDay - (Reading.date _).epochDay = _
    rw [inZone, hday, hend]
    rfl
  | weeks =>
    obtain ⟨hday, hend⟩ := hmidnight rfl
    change ((wholeDayEnd _ _).epochDay - (Reading.date _).epochDay).tdiv 7 = _
    simp only [Reading.period] at hperiod ⊢
    rw [inZone, hday, hend, Int.tdiv_eq_ediv_of_nonneg (by simp only; omega)]
    simp only
    omega
  | months =>
    obtain ⟨hday, hend⟩ := hmidnight rfl
    change (Reading.date _).monthsUntil (wholeDayEnd _ _) = _
    rw [inZone, hday, hend, monthsUntil_of_firstOfMonth hperiod]
    rfl
  | quarters | years =>
    obtain ⟨hday, hend⟩ := hmidnight rfl
    change ((Reading.date _).monthsUntil (wholeDayEnd _ _)).tdiv _ = _
    simp only [Reading.period] at hperiod ⊢
    rw [inZone, hday, hend, monthsUntil_of_firstOfMonth (by omega),
      Int.tdiv_eq_ediv_of_nonneg (by omega)]
    omega

theorem utc_unitsUntil_nonpos (hu : unit ∈ CalendarUnit.regular) (hl : ¬ t.utc.IsLeapSecond)
    {r : Reading} (hl' : ¬ r.IsLeapSecond) (hz : t.zone = .utc) (h : r ≤ t.utc) (zone : Zone) :
    t.unitsUntil ⟨zone, r⟩ unit ≤ 0 := by
  have hcases : unit ∈ CalendarUnit.elapsed ∨ unit ∈ CalendarUnit.dated := by
    have hall : ∀ unit ∈ CalendarUnit.regular,
        unit ∈ CalendarUnit.elapsed ∨ unit ∈ CalendarUnit.dated := by decide
    exact hall unit hu
  rcases hcases with helapsed | hdated
  · obtain ⟨length, hpos, hcount, -⟩ := elapsed_cases helapsed
    rw [hcount, Reading.since_eq hl' hl]
    exact (Count.tdiv_ceil hpos (Int.sub_nonpos_of_le ((Reading.le_iff_toNanos hl' hl).1 h))).1
  · obtain ⟨start, s⟩ := t
    obtain rfl : start = .utc := hz
    rw [unitsUntil_eq_date hdated, inZone, utc_wall, utc_wall]
    exact (Date.unitsUntil_ceil hdated (wholeDayEnd_le h)).1

theorem inCalendar_of_floor? {r : ZonedTime} (hz : t.zone.Regular)
    (hu : unit ∈ CalendarUnit.wholeSecond)
    (h : t.floor? unit = some r) : r.utc.InCalendar ∧ ¬ r.utc.IsLeapSecond := by
  rw [floor?_eq t fun hnanos ↦ CalendarUnit.not_subsecond hu (.inl hnanos)] at h
  obtain ⟨start, hstart, hr⟩ := Option.bind_eq_some_iff.1 h
  have hleap := Reading.not_isLeapSecond_of_eq_ofPeriod (Reading.eq_ofPeriod_of_floor? hu hstart)
  obtain ⟨-, hc, hwall⟩ := Zone.wall_of_attach? hz hleap hr
  refine ⟨hc, fun (hr : r.wall.IsLeapSecond) ↦ hleap ?_⟩
  rw [hwall] at hr
  exact hr

end ZonedTime

namespace NamePattern

variable {p : NamePattern} {start stop first final : ZonedTime}

theorem inCalendar_ofPeriod {a b : Reading} {unit : CalendarUnit}
    (hw : unit ∈ CalendarUnit.wholeSecond) (ha : (Reading.ofPeriod (a.period unit) unit).InCalendar)
    (hb : b.InCalendar) (h : a.period unit ≤ b.period unit) :
    (Reading.ofPeriod (b.period unit) unit).InCalendar := by
  have hlower : Reading.ofPeriod (a.period unit) unit ≤ .ofPeriod (b.period unit) unit :=
    (Reading.ofPeriod_le_iff hw).2 (by rwa [Reading.period_ofPeriod _ hw])
  have hupper : Reading.ofPeriod (b.period unit) unit ≤ b :=
    (Reading.ofPeriod_le_iff hw).2 (Int.le_refl _)
  exact ⟨Int.le_trans ha.1 (Reading.date_le hlower),
    Int.lt_of_le_of_lt (Reading.date_le hupper) hb.2⟩

theorem utc_last_of_floor (hu : p.unit ∈ CalendarUnit.regular)
    (hw : p.unit ∈ CalendarUnit.wholeSecond) (hz : start.zone = .utc) (hc : start.utc.InCalendar)
    (hl : ¬ start.utc.IsLeapSecond) (hf : start.floorTo? p.lowest = some first)
    (hf' : stop.floorTo? p.lowest = some final) (hl' : ¬ final.utc.IsLeapSecond) :
    (first.utc ≤ final.utc →
      (Listing.between p start stop).last = final.utc.period p.unit - start.utc.period p.unit) ∧
    (final.utc ≤ first.utc → (Listing.between p start stop).last ≤ 0) := by
  have hlast : (Listing.between p start stop).last = first.unitsUntil final p.unit := by
    rw [Listing.between, hf, hf']
  obtain ⟨zone, r⟩ := start
  obtain rfl : zone = .utc := hz
  rw [utc_floorTo?_lowest hu hl hc] at hf
  obtain ⟨-, rfl⟩ := ZonedTime.eq_of_covered? hf
  rw [hlast]
  refine ⟨fun hle ↦ ZonedTime.utc_unitsUntil_of_le hu hw hl' hle _, fun hle ↦ ?_⟩
  exact ZonedTime.utc_unitsUntil_nonpos hu (Reading.not_isLeapSecond_ofPeriod _ _) hl' rfl hle _

/-- A listing with the last instant written in another zone. The names are the same just if the
floors are equally many units from that of the first instant, as far as the calendar goes. They are
the same for every pattern of seconds and less, and for hours and minutes if both zones keep whole
hours. A listing in UTC goes as far as before just if the floor, on the clock of the other zone,
lies in the last instant's period of UTC. -/
theorem names_of_stop_in_zone (p : NamePattern) (start stop : ZonedTime) :
    (p.names start stop = p.names start (stop.inZone start.zone) ↔
      ∀ i : Nat, (∀ j ≤ i, start.plus? j p.unit ≠ none) →
        (i ≤ (Listing.between p start stop).last ↔
          i ≤ (Listing.between p start (stop.inZone start.zone)).last)) ∧
    (start.zone.Regular → stop.zone.Regular → stop.utc.InCalendar →
      p.unit ∈ CalendarUnit.secondParts ∨
        p.unit ∈ CalendarUnit.hourParts ∧ start.zone.WholeHours ∧ stop.zone.WholeHours →
      Listing.between p start stop = Listing.between p start (stop.inZone start.zone)) ∧
    (start.zone = .utc → stop.zone.Regular → start.utc.InCalendar → stop.utc.InCalendar →
      ¬ start.utc.IsLeapSecond → ¬ stop.utc.IsLeapSecond → start.utc ≤ stop.utc →
      p.unit ∈ CalendarUnit.regular → p.unit ≠ .millis →
      ∀ first final, start.floorTo? p.lowest = some first → stop.floorTo? p.lowest = some final →
        (first.utc ≤ final.utc →
          ((Listing.between p start stop).last =
            (Listing.between p start (stop.inZone start.zone)).last ↔
            final.utc.period p.unit = stop.utc.period p.unit)) ∧
        (final.utc < first.utc → (Listing.between p start stop).last ≤ 0)) := by
  refine ⟨Listing.toList_eq_iff p start _ _, ?_, ?_⟩
  · intro hz hz' hc hu
    have hunit : p.unit ≠ .weekBasedYears := by
      intro he
      rw [he] at hu
      exact absurd hu (by simp [CalendarUnit.secondParts, CalendarUnit.hourParts])
    refine Listing.between_congr ?_
    have hfloor (t : ZonedTime) : t.floorTo? p.lowest = t.floor? p.unit := by
      rw [ZonedTime.floorTo?_eq, Letter.floorUnit_eq_of_ne hunit]
      rfl
    rw [hfloor, hfloor]
    rcases hu with hu | ⟨hu, hw, hw'⟩
    · rw [ZonedTime.utc_floor?_of_secondParts hz' hc hu]
      exact (ZonedTime.utc_floor?_of_secondParts (t := stop.inZone start.zone) hz hc hu).symm
    · rw [ZonedTime.utc_floor?_of_wholeHours hz' hw' hc hu]
      exact (ZonedTime.utc_floor?_of_wholeHours (t := stop.inZone start.zone) hz hw hc hu).symm
  · intro hz hz' hc hc' hl hl' hle hu hmillis first final hf hf'
    have hw : p.unit ∈ CalendarUnit.wholeSecond := by
      have hall : ∀ unit ∈ CalendarUnit.regular,
          unit ≠ .millis → unit ∈ CalendarUnit.wholeSecond := by decide
      exact hall _ hu hmillis
    have hfinal : ¬ final.utc.IsLeapSecond := by
      rw [ZonedTime.floorTo?_eq, Letter.floorUnit_eq hu] at hf'
      exact (ZonedTime.inCalendar_of_floor? hz' hw hf').2
    obtain ⟨hforward, hback⟩ := utc_last_of_floor hu hw hz hc hl hf hf' hfinal
    refine ⟨fun hfloors ↦ ?_, fun hlt ↦ hback (Reading.le_of_lt hlt)⟩
    obtain ⟨zone, r⟩ := start
    obtain rfl : zone = .utc := hz
    have hperiods : r.period p.unit ≤ stop.utc.period p.unit := Reading.period_le hl hle p.unit
    have hfirst := hf
    rw [utc_floorTo?_lowest hu hl hc] at hfirst
    obtain ⟨hin, rfl⟩ := ZonedTime.eq_of_covered? hfirst
    have hown : (stop.inZone .utc).floorTo? p.lowest =
        some ⟨.utc, .ofPeriod (stop.utc.period p.unit) p.unit⟩ := by
      rw [ZonedTime.inZone, utc_floorTo?_lowest hu hl' hc',
        Zone.covered?_eq (inCalendar_ofPeriod hw hin hc' hperiods)]
    have hlast :=
      (utc_last_of_floor hu hw rfl hc hl hf hown (Reading.not_isLeapSecond_ofPeriod _ _)).1
        ((Reading.ofPeriod_le_iff hw).2 (by rwa [Reading.period_ofPeriod _ hw]))
    rw [Reading.period_ofPeriod _ hw] at hlast
    rw [hforward hfloors, hlast]
    omega

theorem names_to_new_york_after_midnight :
    let start : ZonedTime := ⟨.utc, ⟨1704067200, 0⟩⟩
    let stop : ZonedTime := ⟨.americaNewYork, ⟨1704261600, 0⟩⟩
    numericDays.names start stop = numericDays.names start (stop.inZone .utc) := by
  intro start stop
  have hmem : Zone.americaNewYork ∈ Zone.table := by simp [Zone.table]
  have hf : start.floorTo? numericDays.lowest = some start := by decide
  have hf' : stop.floorTo? numericDays.lowest = some ⟨.americaNewYork, ⟨1704258000, 0⟩⟩ := by
    decide +kernel
  obtain ⟨hnames, -, hutc⟩ := names_of_stop_in_zone numericDays start stop
  obtain ⟨hlast, -⟩ :=
    hutc rfl (Zone.regular_of_mem_table hmem) (by decide) (by decide) (by decide) (by decide)
      (by decide) (by decide) (by decide) _ _ hf hf'
  refine hnames.2 fun i _ ↦ ?_
  rw [(hlast (by decide)).2 (by decide)]

/-- The names do depend on the zone that the last instant is written in: on the evening of a day in
New York the next day of UTC has begun, and its name is left out. -/
theorem names_depend_on_zone_of_stop :
    ¬ ∀ (pattern : String) (p : NamePattern) (start stop : ZonedTime),
    compile pattern = .ok p → start.zone ∈ Zone.table → stop.zone ∈ Zone.table →
    start.utc.InCalendar → stop.utc.InCalendar → ¬ start.utc.IsLeapSecond →
    ¬ stop.utc.IsLeapSecond → start.utc ≤ stop.utc →
    p.names start stop = p.names start (stop.inZone start.zone) := by
  intro h
  let start : ZonedTime := ⟨.utc, ⟨1704067200, 0⟩⟩
  let stop : ZonedTime := ⟨.americaNewYork, ⟨1704247200, 0⟩⟩
  have hmem : Zone.americaNewYork ∈ Zone.table := by simp [Zone.table]
  have hsame := h _ numericDays start stop compile_numericDays List.mem_cons_self hmem (by decide)
    (by decide) (by decide) (by decide) (by decide)
  have hnames : numericDays.names start stop = ["2024.01.01", "2024.01.02"] := by decide +kernel
  have hnames' : numericDays.names start (stop.inZone .utc) =
      ["2024.01.01", "2024.01.02", "2024.01.03"] := by
    decide +kernel
  cases hnames.symm.trans (hsame.trans hnames')

end NamePattern

end Almanac
