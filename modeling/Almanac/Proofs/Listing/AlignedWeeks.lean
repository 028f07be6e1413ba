import Almanac.Proofs.FieldValues.Shows
import Almanac.Proofs.Listing.Days
import Almanac.Proofs.Listing.Distinct

namespace Almanac

namespace Date

variable {d e start stop : Date}

def inAlignedWeek (d start : Date) : Date :=
  ⟨d.epochDay - (d.day - 1) % 7 + (start.epochDay - (d.epochDay - (d.day - 1) % 7)) % 7⟩

theorem inAlignedWeek_bounds (d start : Date) :
    d.epochDay - (d.day - 1) % 7 ≤ (d.inAlignedWeek start).epochDay ∧
    (d.inAlignedWeek start).epochDay < d.epochDay - (d.day - 1) % 7 + 7 ∧
    ((d.inAlignedWeek start).epochDay - start.epochDay) % 7 = 0 := by
  simp only [inAlignedWeek]
  omega

/-- The days of a month lie in an aligned week from its start on. -/
theorem alignedWeek_eq_iff (h : e.monthIndex = d.monthIndex) :
    (e.day - 1) / 7 = (d.day - 1) / 7 ↔ d.epochDay - (d.day - 1) % 7 ≤ e.epochDay ∧
    e.epochDay < d.epochDay - (d.day - 1) % 7 + 7 := by
  have hd := epochDay_eq_firstOfMonth d
  have he := epochDay_eq_firstOfMonth e
  rw [h] at he
  omega

theorem eq_inAlignedWeek (hm : e.monthIndex = d.monthIndex) (hw : (e.day - 1) / 7 = (d.day - 1) / 7)
    (hs : (e.epochDay - start.epochDay) % 7 = 0) : e = d.inAlignedWeek start := by
  have hbounds := (alignedWeek_eq_iff hm).1 hw
  have hbounds' := d.inAlignedWeek_bounds start
  exact eq_of_epochDay_eq (by omega)

theorem inCalendar_of_monthIndex_eq (h : e.monthIndex = d.monthIndex) (hc : d.InCalendar) :
    e.InCalendar := by
  have hd := monthIndex_ediv d
  have he := monthIndex_ediv e
  rw [h] at he
  rw [inCalendar_iff_year] at hc ⊢
  omega

theorem le_inAlignedWeek (h : start.epochDay ≤ d.epochDay) :
    start.epochDay ≤ (d.inAlignedWeek start).epochDay := by
  simp only [inAlignedWeek]
  omega

/-- A listing comes by the aligned week of a day: its weeks can be counted, and the day of the first
weekday lies in the same month and in no later week than the last. -/
structure AlignedWeekReached (start stop d : Date) : Prop where
  floored : start.weekStart.InCalendar
  inMonth : (d.inAlignedWeek start).monthIndex = d.monthIndex
  inWeek : ((d.inAlignedWeek start).epochDay + 3) / 7 ≤ (stop.epochDay + 3) / 7

end Date

namespace ZonedTime

variable {r : Reading}

theorem utc_plus?_weeks (hn : r.nano < 2000000000) (count : Nat) :
    ∃ reading : Reading, reading.date.epochDay = r.date.epochDay + 7 * count ∧
      (⟨.utc, r⟩ : ZonedTime).plus? count .weeks = covered? .utc reading := by
  obtain ⟨nano, hadvance, -⟩ := Reading.advance_days (r := r) hn (7 * count)
  refine ⟨⟨r.second + 86400 * (7 * count : Nat), nano⟩, ?_, ?_⟩
  · simp only [Reading.date, Reading.secondsPerDay]
    omega
  · rw [← hadvance]
    change ((ZonedTime.wall _).advance _).covered?.bind _ = _
    rw [utc_wall, utc_reattach?, covered?_bind, Int.natCast_mul]
    rfl

end ZonedTime

namespace NamePattern

variable {pattern : String} {p : NamePattern} {start stop r : Reading}

def alignedWeekLetters : List Letter := [.year, .monthOfYear, .standaloneMonth, .alignedWeekOfMonth]

theorem inCalendar_weekStart (r : Reading) :
    (Reading.ofPeriod ((r.date.epochDay + 3) / 7) .weeks).InCalendar ↔
    r.date.weekStart.InCalendar := by
  have hstart : (⟨7 * ((r.date.epochDay + 3) / 7) - 3⟩ : Date) = r.date.weekStart := by
    apply Date.eq_of_epochDay_eq
    rw [Date.weekStart_epochDay]
    simp only
    omega
  simp [Reading.ofPeriod, Reading.InCalendar, hstart]

theorem floorTo?_weeks (hw : p.lowest = .alignedWeekOfMonth) (hc : r.InCalendar) :
    (⟨.utc, r⟩ : ZonedTime).floorTo? p.lowest =
      ZonedTime.covered? .utc (.ofPeriod ((r.date.epochDay + 3) / 7) .weeks) := by
  have hno : CalendarUnit.weeks = .nanos ∨ CalendarUnit.weeks = .millis → ¬ r.IsLeapSecond := by
    rintro (h | h) <;> cases h
  rw [hw]
  exact ZonedTime.utc_floor? hno hc

/-- A listing of aligned weeks counts the Mondays passed, if the calendar has the first one. -/
theorem last_between_weeks (hw : p.lowest = .alignedWeekOfMonth) (hc : start.InCalendar)
    (hc' : stop.InCalendar) (hle : start.date.epochDay ≤ stop.date.epochDay) :
    start.date.weekStart.InCalendar ∧ (Listing.between p ⟨.utc, start⟩ ⟨.utc, stop⟩).last =
        (stop.date.epochDay + 3) / 7 - (start.date.epochDay + 3) / 7 ∨
      ¬ start.date.weekStart.InCalendar ∧
      (Listing.between p ⟨.utc, start⟩ ⟨.utc, stop⟩).last = -1 := by
  have hunit : p.unit = .weeks := by
    rw [unit, hw]
    rfl
  rw [Listing.between, floorTo?_weeks hw hc, floorTo?_weeks hw hc', hunit]
  by_cases hin : start.date.weekStart.InCalendar
  · have hin' : stop.date.weekStart.InCalendar := by
      have hlow := hin.1
      have hhigh := hc'.2
      rw [Date.weekStart_epochDay] at hlow
      refine ⟨?_, ?_⟩
      · rw [Date.weekStart_epochDay]
        omega
      · rw [Date.weekStart_epochDay]
        omega
    rw [Zone.covered?_eq ((inCalendar_weekStart start).2 hin),
      Zone.covered?_eq ((inCalendar_weekStart stop).2 hin')]
    have hregular : CalendarUnit.weeks ∈ CalendarUnit.regular := by decide
    exact .inl ⟨hin, ZonedTime.utc_unitsUntil_ofPeriod hregular _ _⟩
  · have hnone : ZonedTime.covered? .utc (.ofPeriod ((start.date.epochDay + 3) / 7) .weeks) =
        none := by
      rw [ZonedTime.covered?, Reading.covered?, if_neg (mt (inCalendar_weekStart start).1 hin)]
      rfl
    rw [hnone]
    exact .inr ⟨hin, rfl⟩

theorem exists_names_of_weeks (hw : p.lowest = .alignedWeekOfMonth) (hc : start.InCalendar)
    (hc' : stop.InCalendar) (hle : start.date.epochDay ≤ stop.date.epochDay) :
    ∃ instants : List ZonedTime,
    (List.range instants.length).map (fun (i : Nat) ↦ (⟨.utc, start⟩ : ZonedTime).plus? i .weeks) =
    instants.map some ∧ p.names ⟨.utc, start⟩ ⟨.utc, stop⟩ = instants.map p.write ∧
    (instants.length = ((Listing.between p ⟨.utc, start⟩ ⟨.utc, stop⟩).last + 1).toNat ∨
      instants.length < ((Listing.between p ⟨.utc, start⟩ ⟨.utc, stop⟩).last + 1).toNat ∧
      (⟨.utc, start⟩ : ZonedTime).plus? instants.length .weeks = none) := by
  have hunit : p.unit = .weeks := by
    rw [unit, hw]
    rfl
  have hcounted := last_between_weeks hw hc hc' hle
  have hlast : (Listing.between p ⟨.utc, start⟩ ⟨.utc, stop⟩).last < Count.greatest := by
    obtain ⟨hlow, -⟩ := Date.inCalendar_iff_epochDay.1 hc
    obtain ⟨-, hhigh⟩ := Date.inCalendar_iff_epochDay.1 hc'
    unfold Count.greatest
    omega
  obtain ⟨instants, hall, hnames, hend⟩ := exists_names hlast
  rw [hunit] at hall hend
  exact ⟨instants, hall, hnames, hend⟩

theorem date_of_plus?_weeks (hn : start.nano < 2000000000) {count : Nat} {t : ZonedTime}
    (h : (⟨.utc, start⟩ : ZonedTime).plus? count .weeks = some t) :
    t.wall.date.InCalendar ∧ t.wall.date.epochDay = start.date.epochDay + 7 * count := by
  obtain ⟨reading, hdate, hplus⟩ := ZonedTime.utc_plus?_weeks hn count
  obtain ⟨hcovered, rfl⟩ := ZonedTime.eq_of_covered? (hplus.symm.trans h)
  simpa using ⟨hcovered, hdate⟩

theorem not_inCalendar_of_plus?_weeks_eq_none (hc : start.InCalendar) (hn : start.nano < 2000000000)
    {count : Nat} (h : (⟨.utc, start⟩ : ZonedTime).plus? count .weeks = none) {date : Date}
    (hd : start.date.epochDay + 7 * count ≤ date.epochDay) : ¬ date.InCalendar := by
  intro hcovered
  obtain ⟨reading, hdate, hplus⟩ := ZonedTime.utc_plus?_weeks hn count
  have hin : reading.InCalendar := by
    obtain ⟨hlow, -⟩ := hc
    obtain ⟨-, hhigh⟩ := hcovered
    exact ⟨by omega, by omega⟩
  rw [h, Zone.covered?_eq hin] at hplus
  cases hplus

/-- The names of aligned weeks are those of the days with the first weekday, up to the end of the
last week. -/
theorem mem_names_of_weeks (hp : compile pattern = .ok p) (hw : p.lowest = .alignedWeekOfMonth)
    (hc : start.InCalendar) (hc' : stop.InCalendar) (hle : start.date.epochDay ≤ stop.date.epochDay)
    (hn : start.nano < 2000000000) {name : String} :
    name ∈ p.names ⟨.utc, start⟩ ⟨.utc, stop⟩ ↔
      start.date.weekStart.InCalendar ∧
        ∃ date : Date, date.InCalendar ∧ start.date.epochDay ≤ date.epochDay ∧
          (date.epochDay - start.date.epochDay) % 7 = 0 ∧
          (date.epochDay + 3) / 7 ≤ (stop.date.epochDay + 3) / 7 ∧
          p.write ⟨.utc, .ofDate date 0 0⟩ = name := by
  have hdated : ¬ p.unit.isTimeBased := by
    rw [unit, hw]
    decide
  have hcounted := last_between_weeks hw hc hc' hle
  obtain ⟨instants, hall, hnames, hend⟩ := exists_names_of_weeks hw hc hc' hle
  have hmidnight (date : Date) : (ZonedTime.wall ⟨.utc, .ofDate date 0 0⟩).date = date := by
    simp
  have hstep {i : Nat} (hi : i < instants.length) : instants[i].wall.date.InCalendar ∧
      instants[i].wall.date.epochDay = start.date.epochDay + 7 * i :=
    date_of_plus?_weeks hn (Listing.getElem_of_map_range hall hi)
  rw [hnames, List.mem_map]
  constructor
  · rintro ⟨t, hmem, rfl⟩
    obtain ⟨i, hi, rfl⟩ := List.getElem_of_mem hmem
    obtain ⟨hcovered, hdate⟩ := hstep hi
    rcases hcounted with ⟨hin, hcount⟩ | ⟨-, hcount⟩
    · have hname := write_of_date_eq hp hdated (hmidnight instants[i].wall.date)
      exact ⟨hin, instants[i].wall.date, hcovered, by omega, by omega, by omega, hname⟩
    · omega
  · rintro ⟨hin, date, hcovered, hlater, hsame, hweek, rfl⟩
    obtain ⟨i, hi⟩ : ∃ i : Nat, date.epochDay = start.date.epochDay + 7 * i :=
      ⟨((date.epochDay - start.date.epochDay) / 7).toNat, by omega⟩
    obtain ⟨-, hcount⟩ := hcounted.resolve_right fun hno ↦ hno.1 hin
    have hreached : i < instants.length := by
      by_contra hshort
      rcases hend with hend | ⟨-, hnone⟩
      · omega
      · exact not_inCalendar_of_plus?_weeks_eq_none hc hn hnone (by omega) hcovered
    have hdate : instants[i].wall.date = date := by
      apply Date.eq_of_epochDay_eq
      rw [(hstep hreached).2, hi]
    exact ⟨instants[i], List.getElem_mem hreached,
      write_of_date_eq hp hdated (hdate.trans (hmidnight date).symm)⟩

section Letters

variable {a b : Reading} (hp : compile pattern = .ok p)
  (hl : ∀ letter ∈ p.letters, letter ∈ alignedWeekLetters)

include hp hl

theorem writeReading_eq_of_alignedWeek (hm : a.date.monthIndex = b.date.monthIndex)
    (hw : (a.date.day - 1) / 7 = (b.date.day - 1) / 7) :
    p.format.writeReading a = p.format.writeReading b := by
  obtain ⟨-, hletters, -⟩ := of_compile hp
  have hyear := Date.monthIndex_ediv a.date
  have hmonth := Date.monthIndex_emod a.date
  rw [hm, Date.monthIndex_ediv] at hyear
  rw [hm, Date.monthIndex_emod] at hmonth
  refine Format.writeReading_congr fun letter hletter ↦ ?_
  have hmem := hl letter (hletters ▸ hletter)
  simp only [alignedWeekLetters, List.mem_cons, List.not_mem_nil, or_false] at hmem
  rcases hmem with rfl | rfl | rfl | rfl
  · exact hyear.symm
  · exact hmonth.symm
  · exact hmonth.symm
  · exact congrArg (· + 1) hw

theorem fields_of_alignedWeek (hw : p.lowest = .alignedWeekOfMonth) :
    ∀ field ∈ [DateField.alignedWeekOfMonth, .monthOfYear, .year],
    field ∈ p.format.pieces.filterMap Piece.field? := by
  obtain ⟨-, hletters, hlowest⟩ := of_compile hp
  have hfield {letter : Letter} (hm : letter ∈ p.letters) :
      letter.field ∈ p.format.pieces.filterMap Piece.field? :=
    Format.field_mem_of_mem_letters (hletters ▸ hm)
  have hplaced := isPlacedBy_of_compile hp
  rw [hw, Letter.isPlacedBy_iff] at hplaced
  obtain ⟨group, hgroup, month, hmonth, hmem, hplaced⟩ := hplaced.resolve_left (by decide)
  obtain rfl := List.mem_singleton.1 hgroup
  have hmonth' : month.field = .monthOfYear ∧
      month.placers = [[.yearOfEra, .year, .weekBasedYear]] := by
    rcases List.mem_pair.1 hmonth with rfl | rfl
    · exact ⟨rfl, rfl⟩
    · exact ⟨rfl, rfl⟩
  rw [Letter.isPlacedBy_iff, hmonth'.2] at hplaced
  obtain ⟨group, hgroup, placer, hyear, hmem', -⟩ := hplaced.resolve_left (by decide)
  obtain rfl := List.mem_singleton.1 hgroup
  have hyear' : placer = .year := by
    have hallowed := hl placer hmem'
    revert hyear hallowed
    cases placer <;> decide
  intro field hm
  simp only [List.mem_cons, List.not_mem_nil, or_false] at hm
  rcases hm with rfl | rfl | rfl
  · exact hfield (hw ▸ LetterSet.mem_of_lowest? hlowest)
  · rw [← hmonth'.1]
    exact hfield hmem
  · exact hfield (hyear' ▸ hmem')

theorem alignedWeek_eq_of_writeReading_eq (hw : p.lowest = .alignedWeekOfMonth)
    (hf : p.format.Unambiguous) (hy : ∀ letter, .shortYear letter ∉ p.format.pieces)
    (ha : a.date.NearCalendar) (hb : b.date.NearCalendar)
    (h : p.format.writeReading a = p.format.writeReading b) :
    a.date.monthIndex = b.date.monthIndex ∧ (a.date.day - 1) / 7 = (b.date.day - 1) / 7 := by
  obtain ⟨hcompile, hletters, -⟩ := of_compile hp
  have hfraction (width : Nat) (hm : .fraction width ∈ p.format.pieces) : width = 9 := by
    have hallowed := hl .fractionOfSecond (hletters ▸ Format.mem_letters_of_piece hm rfl)
    exact absurd hallowed (by decide)
  have hvalue := Format.value_eq_of_unambiguous
    (fun _ ↦ Format.sound_of_compile hcompile) hf ha hb hy hfraction h
  have hfields := fields_of_alignedWeek hp hl hw
  have hyear : a.date.year = b.date.year := hvalue .year (hfields _ (by decide))
  have hmonth : a.date.month = b.date.month := hvalue .monthOfYear (hfields _ (by decide))
  have hweek : (a.date.day - 1) / 7 + 1 = (b.date.day - 1) / 7 + 1 :=
    hvalue .alignedWeekOfMonth (hfields _ (by decide))
  refine ⟨?_, by omega⟩
  rw [Date.monthIndex, Date.monthIndex, hyear, hmonth]

end Letters

/-- A name of an aligned week is listed if the listing comes by the week, and only then if the
pattern can be read back. -/
theorem aligned_weeks_listed (hp : compile pattern = .ok p) (hw : p.lowest = .alignedWeekOfMonth)
    (hl : ∀ letter ∈ p.letters, letter ∈ alignedWeekLetters) {start stop t : ZonedTime}
    (hz : start.zone = .utc) (hz' : stop.zone = .utc) (hzt : t.zone = .utc)
    (hc : start.utc.InCalendar) (hc' : stop.utc.InCalendar) (hn : start.utc.nano < 2000000000)
    (hle : start.utc ≤ t.utc) (hle' : t.utc ≤ stop.utc) :
    (Date.AlignedWeekReached start.utc.date stop.utc.date t.utc.date →
      p.write t ∈ p.names start stop) ∧
    (p.format.Unambiguous → (∀ letter, .shortYear letter ∉ p.format.pieces) →
      p.write t ∈ p.names start stop →
      Date.AlignedWeekReached start.utc.date stop.utc.date t.utc.date) := by
  obtain ⟨zone, start⟩ := start
  obtain ⟨zone', stop⟩ := stop
  obtain ⟨zone'', r⟩ := t
  obtain rfl : zone = .utc := hz
  obtain rfl : zone' = .utc := hz'
  obtain rfl : zone'' = .utc := hzt
  simp only at hc hc' hn hle hle' ⊢
  have hdays := Reading.date_le hle
  have hdays' := Reading.date_le hle'
  have hin : r.date.InCalendar := by
    obtain ⟨hlow, -⟩ := hc
    obtain ⟨-, hhigh⟩ := hc'
    exact ⟨by omega, by omega⟩
  have hmidnight (date : Date) : (Reading.ofDate date 0 0).date = date :=
    Reading.date_ofDate (by decide) (by decide)
  rw [mem_names_of_weeks hp hw hc hc' (by omega) hn]
  constructor
  · rintro ⟨hfloored, hmonth, hweek⟩
    obtain ⟨hlow, hhigh, hsame⟩ := r.date.inAlignedWeek_bounds start.date
    refine ⟨hfloored, _, Date.inCalendar_of_monthIndex_eq hmonth hin, Date.le_inAlignedWeek hdays,
      hsame, hweek, ?_⟩
    rw [write_eq_iff]
    apply writeReading_eq_of_alignedWeek hp hl
    · rw [hmidnight]
      exact hmonth
    · rw [hmidnight]
      exact (Date.alignedWeek_eq_iff hmonth).2 ⟨hlow, hhigh⟩
  · intro hf hy
    rintro ⟨hfloored, date, hcovered, -, hsame, hweek, hname⟩
    rw [write_eq_iff] at hname
    have htold := alignedWeek_eq_of_writeReading_eq hp hl hw hf hy
      ((hmidnight date).symm ▸ hcovered.nearCalendar)
      hin.nearCalendar hname
    rw [hmidnight] at htold
    obtain rfl := Date.eq_inAlignedWeek htold.1 htold.2 hsame
    exact ⟨hfloored, htold.1, hweek⟩

def numericAlignedWeeks : NamePattern := ⟨.alignedWeekOfMonth, .ofPattern "uuuu.MM.W",
  ⟨"uuuu.MM.W", [.number .year 4 10, .literal ['.'], .number .monthOfYear 2 2, .literal ['.'],
    .number .alignedWeekOfMonth 1 1]⟩⟩

theorem compile_numericAlignedWeeks : compile "uuuu.MM.W" = .ok numericAlignedWeeks := by
  have hplaced : Letter.alignedWeekOfMonth.isPlacedBy (.ofPattern "uuuu.MM.W") :=
    Letter.isPlacedBy_of_isChain [.monthOfYear, .year] (by decide) rfl
  exact compile_eq (by decide) hplaced (by decide)

theorem mem_alignedWeekLetters (letter : Letter) (h : letter ∈ numericAlignedWeeks.letters) :
    letter ∈ alignedWeekLetters := by
  revert h
  cases letter <;> decide

theorem second_aligned_week_listed :
    let start : ZonedTime := ⟨.utc, .ofDate (.ofYmd 2024 2 5) 0 0⟩
    let stop : ZonedTime := ⟨.utc, .ofDate (.ofYmd 2024 2 18) 0 0⟩
    "2024.02.2" ∈ numericAlignedWeeks.names start stop ∧
    "2024.02.3" ∉ numericAlignedWeeks.names start stop := by
  intro start stop
  let thursday : ZonedTime := ⟨.utc, .ofDate (.ofYmd 2024 2 8) 0 0⟩
  obtain ⟨hlisted, -⟩ :=
    @aligned_weeks_listed _ _ compile_numericAlignedWeeks rfl mem_alignedWeekLetters start stop
      thursday rfl rfl rfl (by decide) (by decide) (by decide) (by decide) (by decide)
  obtain ⟨-, hreached⟩ :=
    @aligned_weeks_listed _ _ compile_numericAlignedWeeks rfl mem_alignedWeekLetters start stop stop
      rfl rfl rfl (by decide) (by decide) (by decide) (by decide) (by decide)
  have hname : numericAlignedWeeks.write thursday = "2024.02.2" := by decide
  have hname' : numericAlignedWeeks.write stop = "2024.02.3" := by decide
  rw [hname] at hlisted
  rw [hname'] at hreached
  refine ⟨hlisted ⟨by decide, by decide, by decide⟩, fun hmem ↦ ?_⟩
  have hweek := (hreached ⟨by decide, by decide, by decide, by decide⟩
    (by simp [numericAlignedWeeks]) hmem).inWeek
  revert hweek
  decide

/-- Not every aligned week from the first instant's to the last one's is listed, even where both
instants lie in whole aligned weeks of their month. -/
theorem aligned_weeks_not_always_listed :
    ¬ ∀ (pattern : String) (p : NamePattern) (start stop t : ZonedTime),
    compile pattern = .ok p → p.lowest = .alignedWeekOfMonth →
    (∀ letter ∈ p.letters, letter ∈ alignedWeekLetters) →
    (∀ letter, .shortYear letter ∉ p.format.pieces) → start.zone = .utc → stop.zone = .utc →
    t.zone = .utc → start.utc.InCalendar → stop.utc.InCalendar → ¬ start.utc.IsLeapSecond →
    ¬ stop.utc.IsLeapSecond → start.utc ≤ t.utc → t.utc ≤ stop.utc →
    p.write t ∈ p.names start stop := by
  intro h
  let start : ZonedTime := ⟨.utc, .ofDate (.ofYmd 2024 2 5) 0 0⟩
  let stop : ZonedTime := ⟨.utc, .ofDate (.ofYmd 2024 2 11) 0 0⟩
  have hnames : numericAlignedWeeks.names start stop = ["2024.02.1"] := by decide
  have hname : numericAlignedWeeks.write stop = "2024.02.2" := by decide
  have hlisted :=
    h _ numericAlignedWeeks start stop stop compile_numericAlignedWeeks rfl mem_alignedWeekLetters
      (by simp [numericAlignedWeeks]) rfl rfl rfl (by decide) (by decide) (by decide) (by decide)
      (by decide) (by decide)
  rw [hnames, hname] at hlisted
  exact absurd hlisted (by decide)

end NamePattern

end Almanac
