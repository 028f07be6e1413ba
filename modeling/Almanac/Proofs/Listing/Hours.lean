import Almanac.Proofs.Listing
import Almanac.Proofs.NamePattern
import Almanac.Proofs.ZonedTime.WholeHours

namespace Almanac

section Fields

variable {a b : Reading} {field lowest : DateField}

theorem DateField.value_eq_of_hour_eq (hrank : 5 ≤ field.rank)
    (h : a.second / 3600 = b.second / 3600) :
    field.value a = field.value b := by
  have hdate : a.date = b.date := by
    rw [Reading.date, Reading.date, Date.mk.injEq, Reading.secondsPerDay]
    omega
  have hhour : a.hour = b.hour := by
    simp only [Reading.hour, Reading.secondOfDay, Reading.secondsPerDay]
    omega
  cases field <;> first
    | exact absurd hrank (by decide)
    | simp only [value, hdate, hhour]

theorem DateField.value_minuteOfHour (h : a.second / 60 = b.second / 60) :
    minuteOfHour.value a = minuteOfHour.value b := by
  simp only [value, Reading.minute, Reading.secondOfDay, Reading.secondsPerDay]
  omega

/-- A field reads the same all through a period of the unit of a field that is not coarser. -/
theorem DateField.value_eq_of_period_eq (hu : lowest.unit ∈ CalendarUnit.hourParts)
    (hrank : lowest.rank ≤ field.rank)
    (h : a.period lowest.unit = b.period lowest.unit) : field.value a = field.value b := by
  have hhour := Reading.hour_eq_of_period_eq hu h
  have hfinest : 3 ≤ lowest.rank := by
    cases lowest <;> first
      | exact absurd hu (by decide)
      | decide
  cases field with
  | nanoOfDay | nanoOfSecond | milliOfDay => exact absurd (Nat.le_trans hfinest hrank) (by decide)
  | secondOfMinute =>
    have hlowest : lowest = .secondOfMinute := by
      cases lowest <;> first
        | rfl
        | exact absurd hu (by decide)
        | exact absurd hrank (by decide)
    subst hlowest
    exact congrArg (fun second ↦ second % 86400 % 60) h
  | minuteOfHour =>
    cases lowest with
    | secondOfMinute => exact value_minuteOfHour (congrArg (· / 60) h)
    | minuteOfHour => exact value_minuteOfHour h
    | _ => first
      | exact absurd hu (by decide)
      | exact absurd hrank (by decide)
  | _ => exact value_eq_of_hour_eq (by decide) hhour

end Fields

namespace NamePattern

variable {p : NamePattern} {pattern : String} {zone : Zone} {a b t start stop : ZonedTime}

theorem write_eq_of_period_eq (hp : compile pattern = .ok p) (hu : p.unit ∈ CalendarUnit.hourParts)
    (hw : a.zone.WholeHours) (hz : b.zone = a.zone)
    (h : a.utc.period p.unit = b.utc.period p.unit) :
    p.write a = p.write b := by
  obtain ⟨-, hletters, hlowest⟩ := of_compile hp
  have hwall := ZonedTime.wall_period_eq hw hz hu h
  refine congrArg String.ofList (Format.writeReading_congr fun letter hl ↦
    DateField.value_eq_of_period_eq hu ?_ hwall)
  rw [← hletters] at hl
  rcases Letter.field_rank_le (LetterSet.rank_le_of_lowest? hlowest hl) with hle | ⟨hmilli, -⟩
  · exact hle
  · rw [unit, hmilli] at hu
    exact absurd hu (by decide)

theorem write_ofPeriod (hp : compile pattern = .ok p) (hu : p.unit ∈ CalendarUnit.hourParts)
    (hw : zone.WholeHours) (hz : t.zone = zone) {number : Int} (hn : number = t.utc.period p.unit) :
    p.write ⟨zone, .ofPeriod number p.unit⟩ = p.write t := by
  refine write_eq_of_period_eq hp hu hw hz ?_
  rw [Reading.period_ofPeriod _ (CalendarUnit.wholeSecond_of_hourParts hu), hn]

theorem floorTo?_lowest (hu : p.unit ∈ CalendarUnit.hourParts) (t : ZonedTime) :
    t.floorTo? p.lowest = t.floor? p.unit := by
  have hall : ∀ unit ∈ CalendarUnit.hourParts, unit ≠ .weekBasedYears := by decide
  exact floorTo?_eq_floor? (hall _ hu) t

theorem exists_step_in_period (hu : p.unit ∈ CalendarUnit.hourParts) (hc : start.utc.InCalendar)
    (hc' : stop.utc.InCalendar) (hl : ¬ start.utc.IsLeapSecond) {i : Nat}
    (hi : start.utc.period p.unit + i ≤ stop.utc.period p.unit) :
    ∃ t : ZonedTime, start.plus? i p.unit = some t ∧ t.zone = start.zone ∧
      t.utc.period p.unit = start.utc.period p.unit + i := by
  obtain ⟨r, hr, hperiod⟩ := ZonedTime.exists_plus?_of_hourParts (t := start) hu hl i
  have hin : r.InCalendar := Reading.inCalendar_of_period hu hc hc' (by omega) (by omega)
  exact ⟨⟨start.zone, r⟩, hr.trans (Zone.covered?_eq hin), rfl, hperiod⟩

theorem names_of_periods (hp : compile pattern = .ok p) (hu : p.unit ∈ CalendarUnit.hourParts)
    (hw : start.zone.WholeHours) (hc : start.utc.InCalendar) (hc' : stop.utc.InCalendar)
    (hl : ¬ start.utc.IsLeapSecond) {last : Nat}
    (hlast : stop.utc.period p.unit - start.utc.period p.unit = last)
    (hb : Listing.between p start stop = ⟨p, start, 0, last⟩) :
    p.names start stop = (List.range (last + 1)).map fun (i : Nat) ↦
      p.write ⟨start.zone, .ofPeriod (start.utc.period p.unit + i) p.unit⟩ := by
  refine names_eq_map_range hb (Int.natCast_add_one last).symm fun i hi ↦ ?_
  obtain ⟨t, ht, hzone, hperiod⟩ := exists_step_in_period (p := p) hu hc hc' hl (i := i) (by omega)
  exact ⟨t, ht, (write_ofPeriod hp hu hw hzone hperiod.symm).symm⟩

theorem askedBetween_eq (hu : p.unit ∈ CalendarUnit.hourParts) :
    Listing.askedBetween p start stop = [start, stop] := by
  have hall : ∀ unit ∈ CalendarUnit.hourParts, unit.isTimeBased := by decide
  rw [Listing.askedBetween]
  split
  · rw [ZonedTime.askedByCount_of_isTimeBased (hall _ hu)]
  · rfl

/-- A listing breaks down just if an instant from the first to the last has no local time: each of
them shares its hour with one that is written. -/
theorem exists_namesChecked_iff (hu : p.unit ∈ CalendarUnit.hourParts) (hw : start.zone.WholeHours)
    (hz : stop.zone = start.zone) (hc : start.utc.InCalendar) (hc' : stop.utc.InCalendar)
    (hl : ¬ start.utc.IsLeapSecond) (hle : start.utc ≤ stop.utc) {last : Nat}
    (hlast : stop.utc.period p.unit - start.utc.period p.unit = last)
    (hb : Listing.between p start stop = ⟨p, start, 0, last⟩) :
    (∃ names, p.namesChecked start stop = .ok names) ↔
      ∀ t : ZonedTime, t.zone = start.zone → start.utc ≤ t.utc → t.utc ≤ stop.utc →
        t.wall.InCalendar := by
  have hstep (i : Nat) (hi : i < last + 1) : ∃ t : ZonedTime, start.plus? i p.unit = some t ∧
      t.zone = start.zone ∧ t.utc.period p.unit = start.utc.period p.unit + i :=
    exists_step_in_period hu hc hc' hl (by omega)
  have hasked (t : ZonedTime) : t ∈ (Listing.between p start stop).asked (last + 1) ↔
      t = start ∨ ∃ i < last + 1, start.plus? (i : Nat) p.unit = some t := by
    rw [hb, Listing.mem_asked_iff (by simp only; omega) fun i hi ↦ ?_]
    · simp only [Int.zero_add, Nat.succ_pos, true_and]
    · obtain ⟨t, ht, -⟩ := hstep i hi
      exact ⟨t, (Int.zero_add (i : Int)).symm ▸ ht⟩
  have hcount : ((Listing.between p start stop).last + 1).toNat = last + 1 := by
    rw [hb]
    exact Int.toNat_natCast (last + 1)
  simp only [namesChecked_eq_ok_iff, exists_eq_right', askedBetween_eq hu, hcount, hasked,
    List.forall_mem_cons]
  -- An instant in between shares its period with a step, and each step with an instant in between.
  constructor
  · rintro ⟨-, hall⟩ t ht hfrom huntil
    have hlower := Reading.period_le_of_le hu hfrom
    have hupper := Reading.period_le_of_le hu huntil
    obtain ⟨s, hs, hzone, hperiod⟩ :=
      hstep (t.utc.period p.unit - start.utc.period p.unit).toNat (by omega)
    have hshown := hall s (.inr ⟨_, by omega, hs⟩)
    exact (ZonedTime.wall_inCalendar_iff_of_period_eq (hzone.symm ▸ hw) (ht.trans hzone.symm) hu
      (by omega)).1 hshown
  · intro h
    have hstart := h start rfl (.inr ⟨rfl, Nat.le_refl _⟩) hle
    refine ⟨⟨hstart, h stop hz hle (.inr ⟨rfl, Nat.le_refl _⟩), nofun⟩, fun s hs ↦ ?_⟩
    rcases hs with rfl | ⟨i, hi, hs⟩
    · exact hstart
    · obtain ⟨moved, hmoved, hzone, hperiod⟩ := hstep i hi
      obtain rfl := Option.some.inj (hs.symm.trans hmoved)
      obtain ⟨u, hfrom, huntil, hu'⟩ :=
        Reading.exists_between_of_period (r := s.utc) hu hle (by omega) (by omega)
      exact (ZonedTime.wall_inCalendar_iff_of_period_eq (a := ⟨start.zone, u⟩) hw hzone hu hu').1
        (h ⟨start.zone, u⟩ rfl hfrom huntil)

/-- A pattern of hours, minutes or seconds in a zone on whole hours. Where every instant between two
has a local time, every name that is written between them is listed, from that of the first to that
of the last, one for each unit between their floors. Where one has none, the listing breaks down. -/
theorem hours_listed (hp : compile pattern = .ok p) (hu : p.unit ∈ CalendarUnit.hourParts)
    (hs : start.zone.WellSpaced) (hw : start.zone.WholeHours) (hz : stop.zone = start.zone)
    (hc : start.utc.InCalendar) (hc' : stop.utc.InCalendar) (hl : ¬ start.utc.IsLeapSecond)
    (hle : start.utc ≤ stop.utc) :
    (start.zone.Regular ∨ (start.utc.shift (-172800)).InCalendar →
      ∃ first final, start.floorTo? p.lowest = some first ∧ stop.floorTo? p.lowest = some final) ∧
    ∀ first final, start.floorTo? p.lowest = some first → stop.floorTo? p.lowest = some final →
      ((∃ names, p.namesChecked start stop = .ok names) ↔
        ∀ t : ZonedTime, t.zone = start.zone → start.utc ≤ t.utc → t.utc ≤ stop.utc →
          t.wall.InCalendar) ∧
      ∀ names, p.namesChecked start stop = .ok names →
        (∀ t : ZonedTime, t.zone = start.zone → start.utc ≤ t.utc → t.utc ≤ stop.utc →
          ∃ name ∈ names, p.writeChecked t = .ok name) ∧
        (∃ name, names.head? = some name ∧ p.writeChecked start = .ok name) ∧
        (∃ name, names.getLast? = some name ∧ p.writeChecked stop = .ok name) ∧
        (names.length : Int) = first.unitsUntil final p.unit + 1 := by
  have hfloor := ZonedTime.floor?_of_wholeHours hs hw hu hc
  have hfloor' := ZonedTime.floor?_of_wholeHours (hz ▸ hs) (hz ▸ hw) hu hc'
  rw [← floorTo?_lowest hu] at hfloor
  rw [← floorTo?_lowest hu, hz] at hfloor'
  have hperiods := Reading.period_le_of_le hu hle
  refine ⟨fun hregular ↦ ?_, fun first final hf hf' ↦ ?_⟩
  · have hregular' : start.zone.Regular ∨ (stop.utc.shift (-172800)).InCalendar := by
      refine hregular.imp_right fun hday ↦ Reading.inCalendar_of_period hu hday hc' ?_ ?_
      · exact Reading.period_le_of_le hu
          (hle.imp (Int.add_lt_add_right · _) (And.imp_left (congrArg (· + _))))
      · refine Reading.period_le_of_le hu (.inl ?_)
        simp only [Reading.shift]
        omega
    exact ⟨_, _, hfloor.resolve_right fun h ↦ hregular.elim h.2.1 h.2.2,
      hfloor'.resolve_right fun h ↦ hregular'.elim h.2.1 h.2.2⟩
  · have hunits : first.unitsUntil final p.unit =
        stop.utc.period p.unit - start.utc.period p.unit := by
      rw [hf] at hfloor
      rw [hf'] at hfloor'
      obtain rfl := Option.some.inj (hfloor.resolve_right fun h ↦ Option.some_ne_none _ h.1)
      obtain rfl := Option.some.inj (hfloor'.resolve_right fun h ↦ Option.some_ne_none _ h.1)
      exact ZonedTime.unitsUntil_ofPeriod hu _ _ _
    obtain ⟨last, hlast⟩ := Int.eq_ofNat_of_zero_le (Int.sub_nonneg.2 hperiods)
    have hbetween : Listing.between p start stop = ⟨p, start, 0, last⟩ := by
      rw [Listing.between, hf, hf', ← hlast, ← hunits]
    have hnames := names_of_periods hp hu hw hc hc' hl hlast hbetween
    have hlocal := exists_namesChecked_iff hu hw hz hc hc' hl hle hlast hbetween
    refine ⟨hlocal, fun names hok ↦ ?_⟩
    have hwrite (t : ZonedTime) (ht : t.zone = start.zone) (hfrom : start.utc ≤ t.utc)
        (huntil : t.utc ≤ stop.utc) : p.writeChecked t = .ok (p.write t) :=
      Format.writeChecked_eq_ok_iff.2 ⟨hlocal.1 ⟨names, hok⟩ t ht hfrom huntil, rfl⟩
    obtain rfl := (namesChecked_eq_ok_iff.1 hok).2
    refine ⟨fun t ht hfrom huntil ↦ ⟨p.write t, ?_, hwrite t ht hfrom huntil⟩,
      ⟨p.write start, ?_, hwrite start rfl (.inr ⟨rfl, Nat.le_refl _⟩) hle⟩,
      ⟨p.write stop, ?_, hwrite stop hz hle (.inr ⟨rfl, Nat.le_refl _⟩)⟩, ?_⟩
    · have hlower := Reading.period_le_of_le hu hfrom
      have hupper := Reading.period_le_of_le hu huntil
      rw [hnames, List.mem_map]
      exact ⟨(t.utc.period p.unit - start.utc.period p.unit).toNat, List.mem_range.2 (by omega),
        write_ofPeriod hp hu hw ht (by omega)⟩
    · rw [hnames, List.range_succ_eq_map, List.map_cons, List.head?_cons]
      exact congrArg some (write_ofPeriod hp hu hw rfl (Int.add_zero _))
    · rw [hnames, List.range_succ, List.map_append, List.map_singleton, List.getLast?_concat]
      exact congrArg some (write_ofPeriod hp hu hw hz (by omega))
    · rw [hnames, List.length_map, List.length_range, hunits]
      omega

def numericHours : NamePattern := ⟨.hourOfDay, .ofPattern "uuuu.DDD.HH",
  ⟨"uuuu.DDD.HH", [.number .year 4 10, .literal ['.'], .number .dayOfYear 3 3, .literal ['.'],
    .number .hourOfDay 2 2]⟩⟩

theorem compile_numericHours : compile "uuuu.DDD.HH" = .ok numericHours := by
  have hplaced : Letter.hourOfDay.isPlacedBy (.ofPattern "uuuu.DDD.HH") :=
    Letter.isPlacedBy_of_isChain [.dayOfYear, .year] (by decide) rfl
  exact compile_eq (by decide) hplaced (by decide)

theorem names_across_skipped_hour :
    let zone : Zone := ⟨"Eastern", -18000, [⟨1710054000, -14400⟩, ⟨1730613600, -18000⟩]⟩
    let start : ZonedTime := ⟨zone, ⟨1710052200, 0⟩⟩
    let stop : ZonedTime := ⟨zone, ⟨1710059400, 0⟩⟩
    let names := ["2024.070.01", "2024.070.03", "2024.070.04"]
    numericHours.namesChecked start stop = .ok names ∧
      ∀ t : ZonedTime, t.zone = zone → start.utc ≤ t.utc → t.utc ≤ stop.utc →
        t.wall.InCalendar ∧ ∃ name ∈ names, numericHours.writeChecked t = .ok name := by
  intro zone start stop names
  have hnames : numericHours.namesChecked start stop = .ok names := by decide +kernel
  obtain ⟨-, hlisted⟩ := @hours_listed _ _ start stop compile_numericHours
    (by decide) (by decide) (by decide) rfl (by decide) (by decide) (by decide) (by decide)
  obtain ⟨hlocal, hall⟩ := hlisted ⟨zone, ⟨1710050400, 0⟩⟩ ⟨zone, ⟨1710057600, 0⟩⟩
    (by decide +kernel) (by decide +kernel)
  obtain ⟨hmem, -⟩ := hall names hnames
  exact ⟨hnames, fun t ht hfrom huntil ↦
    ⟨hlocal.1 ⟨names, hnames⟩ t ht hfrom huntil, hmem t ht hfrom huntil⟩⟩

end NamePattern

end Almanac
