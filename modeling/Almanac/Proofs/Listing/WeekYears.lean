import Almanac.Proofs.Format.SingleField
import Almanac.Proofs.Listing
import Almanac.Proofs.NamePattern
import Mathlib.Data.Int.Range

namespace Almanac

namespace Date

variable {a b d : Date}

/-- By how many week-based years a day is ahead of January 1 of its calendar year. -/
def weekYearsAhead (d : Date) : Int := d.weekYear - (firstOfMonth (12 * d.year)).weekYear

@[simp] theorem year_of_newYear (year : Int) : (firstOfMonth (12 * year)).year = year := by
  rw [year_firstOfMonth]
  omega

theorem newYear_le_newYear (h : a.epochDay ≤ b.epochDay) :
    (firstOfMonth (12 * a.year)).weekYear ≤ (firstOfMonth (12 * b.year)).weekYear := by
  have hy := year_le h
  apply weekYear_le
  rw [firstOfMonth_le_iff, monthIndex_firstOfMonth]
  omega

/-- January 1 of the last year but one of the calendar belongs to the week-based year before it. -/
theorem weekYear_newYear_le (h : d.year < maxYear) :
    (firstOfMonth (12 * d.year)).weekYear ≤ maxYear - 2 := by
  have hle : (firstOfMonth (12 * d.year)).epochDay ≤
      (firstOfMonth (12 * (maxYear - 1))).epochDay := by
    rw [firstOfMonth_le_iff, monthIndex_firstOfMonth]
    omega
  have hlast : (firstOfMonth (12 * (maxYear - 1))).weekYear = maxYear - 2 := by decide
  exact hlast ▸ weekYear_le hle

theorem weekYearsAhead_le (d : Date) : d.weekYearsAhead ≤ 2 := by
  have hd := weekYear_near d
  have hn := weekYear_near (firstOfMonth (12 * d.year))
  rw [year_of_newYear] at hn
  unfold weekYearsAhead
  omega

end Date

namespace ZonedTime

variable {r : Reading}

theorem utc_floor?_years (hc : r.InCalendar) :
    (⟨.utc, r⟩ : ZonedTime).floor? .years =
    some ⟨.utc, .ofDate (.firstOfMonth (12 * r.date.year)) 0 0⟩ := by
  have hyear : r.period .years = r.date.year := Date.monthIndex_ediv r.date
  have hfloor := @utc_floor? r .years (fun h ↦ absurd h (by decide)) hc
  rw [hyear] at hfloor
  refine hfloor.trans (Zone.covered?_eq ?_)
  rw [Reading.ofPeriod, Reading.InCalendar, Reading.date_midnight, Date.inCalendar_iff_year,
    Date.year_of_newYear]
  exact Date.inCalendar_iff_year.1 hc

theorem utc_plus?_weekYears {amount : Int} (hc : r.InCalendar) (h₁ : 0 ≤ amount)
    (h₂ : r.date.weekYear + amount ≤ Date.maxYear) :
    ∃ t, (⟨.utc, r⟩ : ZonedTime).plus? amount .weekBasedYears = some t ∧
      t.wall.date.weekYear = r.date.weekYear + amount := by
  obtain ⟨date, hadd, hyear, hdate⟩ := Date.exists_addWeekYears? hc h₁ h₂
  have hb := r.secondOfDay_bounds
  have hday : (Reading.ofDate date r.secondOfDay r.nano).date = date :=
    Reading.date_ofDate hb.1 hb.2
  refine ⟨⟨.utc, .ofDate date r.secondOfDay r.nano⟩, ?_, ?_⟩
  · change ((ZonedTime.wall ⟨.utc, r⟩).date.addWeekYears? amount).bind _ = _
    rw [utc_wall, hadd, Option.bind_some, utc_onDate?]
    refine Zone.covered?_eq ?_
    rw [Reading.InCalendar, hday]
    exact hdate
  · simp [hday, hyear]

end ZonedTime

namespace NamePattern

variable {pattern : String} {p : NamePattern}

def weekYearName (p : NamePattern) (weekYear : Int) : String :=
  String.ofList (p.format.writeReading (.ofDate (.weekYearStart weekYear) 0 0))

@[simp] theorem value_weekYearStart (weekYear : Int) :
    Letter.weekBasedYear.field.value (.ofDate (.weekYearStart weekYear) 0 0) = weekYear := by
  simp [Letter.field, DateField.value]

theorem write_eq_weekYearName (hp : compile pattern = .ok p)
    (hy : ∀ letter ∈ p.letters, letter = .weekBasedYear)
    (t : ZonedTime) : p.write t = p.weekYearName t.wall.date.weekYear := by
  obtain ⟨-, hletters, -⟩ := of_compile hp
  refine congrArg String.ofList (Format.writeReading_congr fun letter hl ↦ ?_)
  rw [← hletters] at hl
  rw [hy letter hl]
  exact (value_weekYearStart _).symm

/-- Unless only two digits are written, each week-based year has a name of its own. -/
theorem weekYearName_injective (hp : compile pattern = .ok p)
    (hy : ∀ letter ∈ p.letters, letter = .weekBasedYear)
    (hshort : .shortYear .weekBasedYear ∉ p.format.pieces) : Function.Injective p.weekYearName := by
  obtain ⟨hf, hletters, hlowest⟩ := of_compile hp
  have hmem {letter : Letter} : letter ∈ p.letters ↔
      letter ∈ p.format.pieces.filterMap Piece.letter? := by
    rw [hletters]
    exact LetterSet.mem_ofList
  intro a b h
  have h' := @Format.value_eq_of_writeReading_eq p.format .weekBasedYear _ _ ?_ ?_
    (String.ofList_injective h)
  · rwa [value_weekYearStart, value_weekYearStart] at h'
  · intro piece hpiece
    rcases Format.mem_pieces_of_compile hf hpiece with ⟨text, -, rfl⟩ | ⟨letter, run, -, -, rfl⟩
    · exact .inl rfl
    · obtain rfl := hy letter
        (hmem.2 (List.mem_filterMap.2 ⟨_, hpiece, Letter.letter?_piece letter run⟩))
      refine .inr ⟨run, max run 10, if_neg fun hrun ↦ hshort ?_⟩
      rwa [hrun] at hpiece
  · obtain ⟨piece, hpiece, hletter⟩ :=
      List.mem_filterMap.1 (hmem.1 (LetterSet.mem_of_lowest? hlowest))
    exact ⟨piece, hpiece, hletter ▸ Option.some_ne_none _⟩

theorem unit_of_weekBasedYear (hl : p.lowest = .weekBasedYear) : p.unit = .weekBasedYears := by
  rw [unit, hl]
  rfl

theorem between_of_weekBasedYear {r r' : Reading} (hl : p.lowest = .weekBasedYear)
    (hc : r.InCalendar) (hc' : r'.InCalendar) :
    Listing.between p ⟨.utc, r⟩ ⟨.utc, r'⟩ = ⟨p, ⟨.utc, r⟩, 0,
      (Date.firstOfMonth (12 * r'.date.year)).weekYear -
      (Date.firstOfMonth (12 * r.date.year)).weekYear⟩ := by
  have hfloor {r : Reading} (hc : r.InCalendar) : (⟨.utc, r⟩ : ZonedTime).floorTo? p.lowest =
      some ⟨.utc, .ofDate (.firstOfMonth (12 * r.date.year)) 0 0⟩ := by
    rw [ZonedTime.floorTo?_eq, hl]
    exact ZonedTime.utc_floor?_years hc
  rw [Listing.between, hfloor hc, hfloor hc']
  simp only [unit_of_weekBasedYear hl, ZonedTime.unitsUntil, ZonedTime.inZone, ZonedTime.utc_wall,
    Reading.date_midnight]

/-- A listing yields the names from the week-based year of its first instant on. -/
theorem yields_week_years (hp : compile pattern = .ok p)
    (hy : ∀ letter ∈ p.letters, letter = .weekBasedYear) {r r' : Reading} (hc : r.InCalendar)
    (hc' : r'.InCalendar) (hle : r ≤ r') (hlast : r'.date.year < Date.maxYear) :
    (Listing.between p ⟨.utc, r⟩ ⟨.utc, r'⟩).Yields ((Int.range r.date.weekYear
      (r'.date.weekYear + (r.date.weekYearsAhead - r'.date.weekYearsAhead) + 1)).map
      p.weekYearName) := by
  have hlowest : p.lowest = .weekBasedYear := hy _ (LetterSet.mem_of_lowest? (of_compile hp).2.2)
  have hahead := Date.weekYearsAhead_le r.date
  have hbound := Date.weekYear_newYear_le hlast
  have horder := Date.newYear_le_newYear (Reading.date_le hle)
  rw [between_of_weekBasedYear hlowest hc hc', Int.range, List.map_map]
  unfold Date.weekYearsAhead at hahead ⊢
  refine Listing.yields_of_names _ _ (by simp only; omega) fun i hi ↦ ?_
  obtain ⟨t, ht, hyear⟩ := @ZonedTime.utc_plus?_weekYears r i hc (Int.natCast_nonneg i) (by omega)
  refine ⟨t, ?_, ?_⟩
  · rw [Int.zero_add, unit_of_weekBasedYear hlowest]
    exact ht
  · exact (write_eq_weekYearName hp hy t).trans (congrArg p.weekYearName hyear)

/-- A listing of week-based years goes from that of the first instant to that of the last just if
both instants are equally far ahead of January 1. -/
theorem week_years_listed (hp : compile pattern = .ok p)
    (hy : ∀ letter ∈ p.letters, letter = .weekBasedYear)
    (hshort : .shortYear .weekBasedYear ∉ p.format.pieces) {start stop : ZonedTime}
    (hz : start.zone = .utc) (hz' : stop.zone = .utc) (hc : start.utc.InCalendar)
    (hc' : stop.utc.InCalendar) (hle : start.utc ≤ stop.utc)
    (hlast : stop.utc.date.year < Date.maxYear) :
    p.weekYearName.Injective ∧ (∀ t, p.write t = p.weekYearName t.wall.date.weekYear) ∧
      (Listing.between p start stop).Yields
        ((Int.range start.utc.date.weekYear
          (stop.utc.date.weekYear + (start.utc.date.weekYearsAhead - stop.utc.date.weekYearsAhead) +
            1)).map p.weekYearName) ∧
      ((Listing.between p start stop).Yields
          ((Int.range start.utc.date.weekYear (stop.utc.date.weekYear + 1)).map p.weekYearName) ↔
        start.utc.date.weekYearsAhead = stop.utc.date.weekYearsAhead) := by
  obtain ⟨zone, r⟩ := start
  obtain ⟨zone', r'⟩ := stop
  obtain rfl : zone = .utc := hz
  obtain rfl : zone' = .utc := hz'
  simp only at hc hc' hle hlast ⊢
  have hinj := weekYearName_injective hp hy hshort
  have hyields := yields_week_years hp hy hc hc' hle hlast
  refine ⟨hinj, write_eq_weekYearName hp hy, hyields, fun h ↦ ?_, fun h ↦ ?_⟩
  · have hyears := congrArg List.length ((List.map_inj_right hinj).1 (hyields.eq h))
    have horder := Date.newYear_le_newYear (Reading.date_le hle)
    rw [Int.range, Int.range, List.length_map, List.length_map, List.length_range,
      List.length_range] at hyears
    unfold Date.weekYearsAhead at *
    omega
  · rwa [h, Int.sub_self, Int.add_zero] at hyields

theorem compile_weekYear :
    compile "YYYY" = .ok ⟨.weekBasedYear, .ofPattern "YYYY",
    ⟨"YYYY", [.number .weekBasedYear 4 10]⟩⟩ := by
  have hf : Format.compile "YYYY" = .ok ⟨"YYYY", [.number .weekBasedYear 4 10]⟩ := by decide
  exact compile_eq (by decide) (Letter.isPlacedBy_iff.2 (.inl rfl)) hf

theorem eq_weekBasedYear_of_mem (letter : Letter) (h : letter ∈ LetterSet.ofPattern "YYYY") :
    letter = .weekBasedYear := by
  revert h
  cases letter <;> decide

theorem names_of_2020_and_2021 :
    let p : NamePattern :=
      ⟨.weekBasedYear, .ofPattern "YYYY", ⟨"YYYY", [.number .weekBasedYear 4 10]⟩⟩
    let start : ZonedTime := ⟨.utc, .ofDate (.ofYmd 2020 6 1) 0 0⟩
    let stop : ZonedTime := ⟨.utc, .ofDate (.ofYmd 2021 6 1) 0 0⟩
    (Listing.between p start stop).Yields ["2020"] := by
  intro p start stop
  have hnames : (Int.range 2020 2021).map p.weekYearName = ["2020"] := by decide
  obtain ⟨-, -, hyields, -⟩ :=
    @week_years_listed _ _ compile_weekYear eq_weekBasedYear_of_mem (by decide) start stop
    rfl rfl (by decide) (by decide) (by decide) (by decide)
  rw [← hnames]
  exact hyields

/-- Listings do not always go on to the week-based year of their last instant. -/
theorem week_years_not_always_listed :
    ¬ ∀ (pattern : String) (p : NamePattern) (start stop : ZonedTime),
    compile pattern = .ok p → (∀ letter ∈ p.letters, letter = .weekBasedYear) →
    .shortYear .weekBasedYear ∉ p.format.pieces → start.zone = .utc → stop.zone = .utc →
    start.utc.InCalendar → stop.utc.InCalendar → start.utc ≤ stop.utc →
    stop.utc.date.year < Date.maxYear →
    (Listing.between p start stop).Yields
    ((Int.range start.utc.date.weekYear (stop.utc.date.weekYear + 1)).map p.weekYearName) := by
  intro h
  let r : Reading := .ofDate (.ofYmd 2020 6 1) 0 0
  let r' : Reading := .ofDate (.ofYmd 2021 6 1) 0 0
  have hall := h _ _ ⟨.utc, r⟩ ⟨.utc, r'⟩ compile_weekYear eq_weekBasedYear_of_mem
    (by decide) rfl rfl (by decide)
    (by decide) (by decide) (by decide)
  have hone := @yields_week_years _ _ compile_weekYear eq_weekBasedYear_of_mem r r' (by decide)
    (by decide) (by decide) (by decide)
  have hlength := congrArg List.length (hone.eq hall)
  revert hlength
  decide

end NamePattern

end Almanac
