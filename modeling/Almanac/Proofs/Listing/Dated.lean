import Almanac.Proofs.Format.Dated
import Almanac.Proofs.Listing
import Almanac.Proofs.ZonedTime.DateStep
import Almanac.Proofs.ZonedTime.Rounding

namespace Almanac

def CalendarUnit.numbered : List CalendarUnit :=
  [.seconds, .minutes, .hours, .days, .months, .years]

theorem CalendarUnit.wholeSecond_of_numbered {unit : CalendarUnit} (hu : unit ∈ numbered) :
    unit ∈ wholeSecond := by
  have hall : ∀ unit ∈ numbered, unit ∈ wholeSecond := by decide
  exact hall unit hu

theorem CalendarUnit.regular_of_numbered {unit : CalendarUnit} (hu : unit ∈ numbered) :
    unit ∈ regular := by
  have hall : ∀ unit ∈ numbered, unit ∈ regular := by decide
  exact hall unit hu

theorem DatedPieces.unit_mem {pieces : List Piece} {unit : CalendarUnit}
    (h : DatedPieces pieces unit) :
    unit ∈ CalendarUnit.numbered := by
  induction h with
  | year => decide
  | text _ _ ih => exact ih
  | number hn => cases hn <;> decide

@[simp] theorem Date.monthIndex_inMonth (d : Date) (index : Int) :
    (d.inMonth index).monthIndex = index := by
  have hplace := place_inMonth d index
  have hday := (d.inMonth index).day_bounds
  have hday' := (d.inMonth index).day_le
  have hday'' := d.day_bounds
  have hday''' := d.day_le
  have hlength := @monthLength_pos (index / 12) (index % 12 + 1) (by omega) (by omega)
  unfold place at hplace
  omega

namespace ZonedTime

variable {r : Reading} {unit : CalendarUnit}

/-- A step leads to the period so many on, unless it leaves the calendar. -/
theorem exists_utc_plus?_of_numbered (hu : unit ∈ CalendarUnit.numbered) (hn : r.nano < 2000000000)
    (count : Nat) :
    ∃ moved : Reading, moved.period unit = r.period unit + count ∧
      (⟨.utc, r⟩ : ZonedTime).plus? count unit = covered? .utc moved := by
  have helapsed {length : Int} (hl : unit.seconds? = some length) (hpos : 0 ≤ length)
      (hp : ∀ moved : Reading, moved.second = r.second + length * count →
        moved.period unit = r.period unit + count) :
      ∃ moved : Reading, moved.period unit = r.period unit + count ∧
        (⟨.utc, r⟩ : ZonedTime).plus? count unit = covered? .utc moved :=
    ⟨_, hp _ (Reading.second_advance_of_nonneg hn (Int.mul_nonneg hpos (Int.natCast_nonneg count))),
      utc_plus?_elapsed r hl count⟩
  have hmonths {months : Int} (hm : unit.months? = some months)
      (hp : ∀ moved : Reading, moved.date.monthIndex = r.date.monthIndex + months * count →
        moved.period unit = r.period unit + count) :
      ∃ moved : Reading, moved.period unit = r.period unit + count ∧
        (⟨.utc, r⟩ : ZonedTime).plus? count unit = covered? .utc moved := by
    have hb := r.secondOfDay_bounds
    let date := r.date.inMonth (r.date.monthIndex + months * count)
    refine ⟨.ofDate date r.secondOfDay r.nano, hp _ ?_, ?_⟩
    · rw [Reading.date_ofDate hb.1 hb.2, Date.monthIndex_inMonth]
    · rw [utc_plus?_months hm, Date.addMonths?, Date.inMonth?_eq, ← covered?_bind,
        Reading.covered?_ofDate hb.1 hb.2,
        Option.bind_map]
      rfl
  cases unit with
  | seconds | minutes | hours | days =>
    refine helapsed rfl (by decide) fun moved hmoved ↦ ?_
    simp only [Reading.period, Reading.date, Reading.secondsPerDay]
    omega
  | months | years =>
    refine hmonths rfl fun moved hmoved ↦ ?_
    simp only [Reading.period]
    omega
  | nanos | millis | halfDays | weeks | quarters | weekBasedYears | eras =>
    exact absurd hu (by decide)

end ZonedTime

namespace NamePattern

variable {p : NamePattern} {start stop r : Reading}

section Periods

variable (h : DatedPieces p.format.pieces p.unit)
  (hs : 1 ≤ start.date.year ∧ start.date.year ≤ 9999)
  (hs' : 1 ≤ stop.date.year ∧ stop.date.year ≤ 9999)

include h hs hs'

theorem year_of_period (hl : start.period p.unit ≤ r.period p.unit)
    (hr : r.period p.unit ≤ stop.period p.unit) :
    1 ≤ r.date.year ∧ r.date.year ≤ 9999 :=
  ⟨Int.le_trans hs.1 (h.year_le hl), Int.le_trans (h.year_le hr) hs'.2⟩

theorem year_ofPeriod {number : Int} (hl : start.period p.unit ≤ number)
    (hr : number ≤ stop.period p.unit) :
    1 ≤ (Reading.ofPeriod number p.unit).date.year ∧
    (Reading.ofPeriod number p.unit).date.year ≤ 9999 := by
  have hperiod := Reading.period_ofPeriod number (CalendarUnit.wholeSecond_of_numbered h.unit_mem)
  exact year_of_period h hs hs' (by rwa [hperiod]) (by rwa [hperiod])

theorem between_of_dated (hle : start.period p.unit ≤ stop.period p.unit) :
    Listing.between p ⟨.utc, start⟩ ⟨.utc, stop⟩ =
      ⟨p, ⟨.utc, start⟩, 0, stop.period p.unit - start.period p.unit⟩ := by
  have hwhole := CalendarUnit.wholeSecond_of_numbered h.unit_mem
  have hall : ∀ unit ∈ CalendarUnit.numbered, unit ≠ .weekBasedYears := by decide
  have hfloor {r : Reading} (hl : start.period p.unit ≤ r.period p.unit)
      (hr : r.period p.unit ≤ stop.period p.unit) :
      (⟨.utc, r⟩ : ZonedTime).floorTo? p.lowest =
      some ⟨.utc, .ofPeriod (r.period p.unit) p.unit⟩ := by
    rw [floorTo?_eq_floor? (hall _ h.unit_mem),
      ZonedTime.utc_floor? (absurd · (CalendarUnit.not_subsecond hwhole))
      (Format.inCalendar_of_year (year_of_period h hs hs' hl hr))]
    exact Zone.covered?_eq (Format.inCalendar_of_year (year_ofPeriod h hs hs' hl hr))
  rw [Listing.between, hfloor (Int.le_refl _) hle, hfloor hle (Int.le_refl _)]
  simp only
  rw [ZonedTime.utc_unitsUntil_ofPeriod (CalendarUnit.regular_of_numbered h.unit_mem)]

/-- The names of the periods from that of the first instant to that of the last, one for each. -/
theorem names_of_dated (hn : start.nano < 2000000000) {last : Nat}
    (hlast : stop.period p.unit = start.period p.unit + last) :
    p.names ⟨.utc, start⟩ ⟨.utc, stop⟩ = (List.range (last + 1)).map fun (i : Nat) ↦
      p.write ⟨.utc, .ofPeriod (start.period p.unit + i) p.unit⟩ := by
  have hwhole := CalendarUnit.wholeSecond_of_numbered h.unit_mem
  refine names_eq_map_range (between_of_dated h hs hs' (by omega)) (by omega) fun i hi ↦ ?_
  obtain ⟨moved, hperiod, hmoved⟩ := ZonedTime.exists_utc_plus?_of_numbered h.unit_mem hn i
  have hyear : 1 ≤ moved.date.year ∧ moved.date.year ≤ 9999 :=
    year_of_period h hs hs' (by rw [hperiod]; omega) (by rw [hperiod]; omega)
  refine ⟨⟨.utc, moved⟩, ?_, write_of_dated h ?_⟩
  · rw [hmoved]
    exact Zone.covered?_eq (Format.inCalendar_of_year hyear)
  · rw [hperiod, Reading.period_ofPeriod _ hwhole]

end Periods

/-- Dated names sort in the order of time. For instants of UTC in the years 1 to 9999, an instant
that is not later has no greater name. The names between two instants are strictly increasing, from
that of the first to that of the last, and that of any instant between the two is among them. -/
theorem dated_names_sort {pattern : String} {unit : CalendarUnit}
    (h : DatedItems (Item.ofPattern pattern.toList) unit) :
    ∃ p, compile pattern = .ok p ∧ Format.compile pattern = .ok p.format ∧ p.unit = unit ∧
      (∀ a b : Reading, 1 ≤ a.date.year ∧ a.date.year ≤ 9999 →
        1 ≤ b.date.year ∧ b.date.year ≤ 9999 → a ≤ b →
        Text.bytes (p.write ⟨.utc, a⟩) ≤ Text.bytes (p.write ⟨.utc, b⟩)) ∧
      ∀ start stop : Reading, 1 ≤ start.date.year ∧ start.date.year ≤ 9999 →
        1 ≤ stop.date.year ∧ stop.date.year ≤ 9999 → start.nano < 2000000000 → start ≤ stop →
        (p.names ⟨.utc, start⟩ ⟨.utc, stop⟩).Pairwise (fun a b ↦ Text.bytes a < Text.bytes b) ∧
        (p.names ⟨.utc, start⟩ ⟨.utc, stop⟩).head? = some (p.write ⟨.utc, start⟩) ∧
        (p.names ⟨.utc, start⟩ ⟨.utc, stop⟩).getLast? = some (p.write ⟨.utc, stop⟩) ∧
        ∀ t : Reading, start ≤ t → t ≤ stop →
        p.write ⟨.utc, t⟩ ∈ p.names ⟨.utc, start⟩ ⟨.utc, stop⟩ := by
  obtain ⟨p, hp, hf, rfl, hdated⟩ := exists_of_datedItems h
  have hwhole := CalendarUnit.wholeSecond_of_numbered hdated.unit_mem
  refine ⟨p, hp, hf, rfl, fun a b ha hb hle ↦ ?_, fun start stop hs hs' hn hle ↦ ?_⟩
  · exact bytes_write_le hdated ha hb (Reading.period_le_of_wholeSecond hwhole hle)
  have hperiods := Reading.period_le_of_wholeSecond hwhole hle
  obtain ⟨last, hlast⟩ := Int.eq_ofNat_of_zero_le (Int.sub_nonneg_of_le hperiods)
  have hnames := names_of_dated hdated hs hs' hn
    (show _ = start.period p.unit + (last : Int) by omega)
  have hwrite {t : Reading} {i : Int} (hi : start.period p.unit + i = t.period p.unit) :
      p.write ⟨.utc, .ofPeriod (start.period p.unit + i) p.unit⟩ = p.write ⟨.utc, t⟩ :=
    write_of_dated hdated (by rw [Reading.period_ofPeriod _ hwhole, hi])
  rw [hnames]
  refine ⟨?_, ?_, ?_, fun t hfrom huntil ↦ ?_⟩
  · refine List.pairwise_map.2 (List.pairwise_lt_range.imp_of_mem fun {i j} hi hj hlt ↦ ?_)
    rw [List.mem_range] at hi hj
    refine bytes_write_lt hdated (year_ofPeriod hdated hs hs' (by omega) (by omega))
      (year_ofPeriod hdated hs hs' (by omega) (by omega)) ?_
    rw [Reading.period_ofPeriod _ hwhole, Reading.period_ofPeriod _ hwhole]
    omega
  · rw [List.range_succ_eq_map, List.map_cons, List.head?_cons]
    exact congrArg some (hwrite (Int.add_zero _))
  · rw [List.range_succ, List.map_append, List.map_singleton, List.getLast?_concat]
    exact congrArg some (hwrite (by omega))
  · have hlower := Reading.period_le_of_wholeSecond hwhole hfrom
    have hupper := Reading.period_le_of_wholeSecond hwhole huntil
    rw [List.mem_map]
    exact ⟨(t.period p.unit - start.period p.unit).toNat, List.mem_range.2 (by omega),
      hwrite (by omega)⟩

theorem months_from_end_of_january :
    let start : Reading := .ofDate (.ofYmd 2024 1 31) 82800 0
    let stop : Reading := .ofDate (.ofYmd 2024 3 1) 0 0
    ∃ p, compile "'log-'yyyyMM.'gz'" = .ok p ∧
      (p.names ⟨.utc, start⟩ ⟨.utc, stop⟩).Pairwise (fun a b ↦ Text.bytes a < Text.bytes b) ∧
      (p.names ⟨.utc, start⟩ ⟨.utc, stop⟩).head? = some "log-202401.gz" ∧
      (p.names ⟨.utc, start⟩ ⟨.utc, stop⟩).getLast? = some "log-202403.gz" ∧
      "log-202402.gz" ∈ p.names ⟨.utc, start⟩ ⟨.utc, stop⟩ := by
  intro start stop
  let leapDay : Reading := .ofDate (.ofYmd 2024 2 29) 0 0
  let f : Format := ⟨"'log-'yyyyMM.'gz'", [.literal ['l', 'o', 'g', '-'], .number .yearOfEra 4 10,
    .number .monthOfYear 2 2, .literal ['.', 'g', 'z']]⟩
  have hitems : Item.ofPattern "'log-'yyyyMM.'gz'".toList =
      [['l', 'o', 'g', '-']].map .literal ++ [.field 'y' 4] ++ [.field 'M' 2] ++
      [.literal ['.', 'g', 'z']] := by decide
  have hdated : DatedItems (Item.ofPattern "'log-'yyyyMM.'gz'".toList) .months :=
    hitems ▸ .text _ (.number .month (.year _))
  obtain ⟨p, hp, hf, -, -, hnames⟩ := dated_names_sort hdated
  obtain ⟨hsorted, hhead, hlast, hall⟩ :=
    hnames start stop (by decide) (by decide) (by decide) (by decide)
  have hcompile : Format.compile "'log-'yyyyMM.'gz'" = .ok f := by decide
  have hformat : p.format = f := Except.ok.inj (hf.symm.trans hcompile)
  have hwrite (t : ZonedTime) : p.write t = p.format.write t := rfl
  refine ⟨p, hp, hsorted, ?_, ?_, ?_⟩
  · rw [hhead, hwrite, hformat]
    decide
  · rw [hlast, hwrite, hformat]
    decide
  · have hmem := hall leapDay (by decide) (by decide)
    have hname : p.write ⟨.utc, leapDay⟩ = "log-202402.gz" := by
      rw [hwrite, hformat]
      decide
    exact hname ▸ hmem

end NamePattern

end Almanac
