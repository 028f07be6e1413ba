import Almanac.Proofs.FieldValues.Date
import Almanac.Proofs.FieldValues.TimeOfDay
import Almanac.Proofs.Format.NearbyDays
import Almanac.Proofs.Format.SeparatedReading
import Almanac.Proofs.Format.SingleField

namespace Almanac

namespace Date

theorem firstOfMonth_inCalendar {d : Date} (hc : d.InCalendar) :
    (firstOfMonth d.monthIndex).InCalendar := by
  rw [inCalendar_iff_year] at hc ⊢
  simpa using hc

theorem dayOfYear_firstOfMonth (d : Date) :
    (firstOfMonth d.monthIndex).dayOfYear = d.dayOfYear - d.day + 1 := by
  have hm := month_bounds d
  have hfirst := dayOfYear_ofYmd hm.1 hm.2.1 (Int.le_refl 1) (@monthLength_pos d.year _ hm.1 hm.2.1)
  rw [firstOfMonth, monthIndex_ediv, monthIndex_emod, hfirst, day]
  omega

theorem firstOfMonth_eq_self_iff {d : Date} : firstOfMonth d.monthIndex = d ↔ d.day = 1 := by
  have hday := epochDay_eq_firstOfMonth d
  constructor
  · intro h
    rw [← congrArg Date.epochDay h] at hday
    omega
  · intro h
    exact eq_of_epochDay_eq (by omega)

end Date

namespace FieldValues

variable {v : FieldValues} {fields ys : List DateField} {r : Reading}

theorem place_of_date_error {e : ParseError} (h : v.date = .error e) (zone : Zone) :
    v.place zone = .error e := by
  rw [place, reading, h]
  rfl

def otherDays : List DateField :=
  [.dayOfMonth, .alignedWeekOfMonth, .dayOfWeek, .quarterOfYear, .weekOfWeekBasedYear,
    .weekBasedYear]

theorem Shows.chosenDate_of_month (hv : v.Shows fields r) (hy : YearFields ys)
    (hs : ∀ field ∈ ys, field ∈ fields) (hm : .monthOfYear ∈ fields)
    (hn : ∀ field ∈ otherDays, field ∉ fields) (hc : r.date.InCalendar) :
    v.chosenDate = .ok (.firstOfMonth r.date.monthIndex) := by
  have hday := hv.dayIn_of_not_mem (hn .dayOfMonth (by decide)) (hn .alignedWeekOfMonth (by decide))
  have hfirst : Date.ofYmd? r.date.year r.date.month 1 =
      some (.firstOfMonth r.date.monthIndex) := by
    have h := Date.ofYmd?_firstOfMonth r.date.monthIndex
    rw [Date.monthIndex_ediv, Date.monthIndex_emod] at h
    rw [h, Date.covered?_of_inCalendar (Date.firstOfMonth_inCalendar hc)]
  rw [hv.chosenDate_of_yearFields hy hs (hn _ (by decide)) (hn _ (by decide)) hc.nearCalendar,
    dateIn_eq (fun _ ↦ .inl (hv.contains_of_mem hm)) (hv.monthIn_of_mem hm) hday, hfirst]

/-- With a month and a day of the year alone, only the first of the month is a date. -/
theorem Shows.date_of_month_and_yearDay (hv : v.Shows fields r) (hy : YearFields ys)
    (hs : ∀ field ∈ ys, field ∈ fields) (hm : .monthOfYear ∈ fields) (hd : .dayOfYear ∈ fields)
    (hn : ∀ field ∈ otherDays, field ∉ fields) (hc : r.date.InCalendar) :
    v.date = if r.date.day = 1 then .ok r.date
    else .error (.conflict .dayOfYear r.date.dayOfYear (r.date.dayOfYear - r.date.day + 1)) := by
  have hchosen := hv.chosenDate_of_month hy hs hm hn hc
  split
  · rename_i hfirst
    rw [Date.firstOfMonth_eq_self_iff.2 hfirst] at hchosen
    exact hv.date_eq hchosen
  · rename_i hlater
    have hdiffer : ¬ r.date.dayOfYear = r.date.dayOfYear - r.date.day + 1 := by omega
    have hshown : v.get? .dayOfYear = some r.date.dayOfYear := hv.get?_of_mem hd
    have hconflict : v.agree .dayOfYear (Date.firstOfMonth r.date.monthIndex).dayOfYear =
        .error (.conflict .dayOfYear r.date.dayOfYear (r.date.dayOfYear - r.date.day + 1)) := by
      rw [FieldValues.agree, hshown, Date.dayOfYear_firstOfMonth]
      exact if_neg hdiffer
    rw [FieldValues.date, hchosen]
    change (v.agree .dayOfWeek _ >>=
      fun _ ↦ v.agree .quarterOfYear _ >>= fun _ ↦ v.agree .dayOfYear _ >>= fun _ ↦ _) = _
    rw [hv.agree_of_not_mem (hn _ (by decide)), hv.agree_of_not_mem (hn _ (by decide)), hconflict]
    rfl

end FieldValues

namespace Format

variable {f : Format} {pattern : String} {t : ZonedTime}

/-- The name of a day that shows year, month and day of the year resolves to the day on the first of
a month. On other days the day of the year is in conflict with the first of the month. -/
theorem day_of_year_beside_month (hf : compile pattern = .ok f)
    (h : f.Separates [.dayOfYear, .monthOfYear, .year])
    (hz : t.zone = .utc) (hc : t.utc.InCalendar) :
    (Piece.numbersEnd f.pieces → ∃ values, f.read (f.write t) = .ok values) ∧
      ∀ values, f.read (f.write t) = .ok values → values.place .utc =
        if t.utc.date.day = 1 then .ok ⟨.utc, .ofDate t.utc.date 0 0⟩
        else .error (.conflict .dayOfYear t.utc.date.dayOfYear
          (t.utc.date.dayOfYear - t.utc.date.day + 1)) := by
  obtain ⟨zone, r⟩ := t
  obtain rfl : zone = .utc := hz
  have hwall := ZonedTime.utc_wall r
  have hnear := @ZonedTime.wall_nearCalendar ⟨.utc, r⟩ Zone.utc_regular.wellSpaced hc
  refine ⟨fun hends ↦ h.exists_read hf (by decide) hends (by decide) hnear, fun values hread ↦ ?_⟩
  have hv := h.shows_of_read hf (by decide) hnear hread
  rw [hwall] at hv
  have hdate := hv.date_of_month_and_yearDay .year (by decide) (by decide) (by decide)
    (by decide) hc
  have hdays : ∀ field ∈ [DateField.dayOfYear, .monthOfYear, .year], ¬ field.unit.isTimeBased := by
    decide
  have htime := hv.timeOfDay_of_not_mem fun field hu hm ↦ hdays field hm hu
  split at hdate
  · rename_i hfirst
    rw [if_pos hfirst]
    exact FieldValues.place_utc_of_midnight hdate htime hc
  · rename_i hlater
    rw [if_neg hlater]
    exact FieldValues.place_of_date_error hdate .utc

def monthAndYearDay : Format :=
  ⟨"uuuu.MM.DDD", [.number .year 4 10, .literal ['.'], .number .monthOfYear 2 2, .literal ['.'],
    .number .dayOfYear 3 3]⟩

theorem compile_monthAndYearDay : compile "uuuu.MM.DDD" = .ok monthAndYearDay := by decide

theorem separates_monthAndYearDay :
    monthAndYearDay.Separates [.dayOfYear, .monthOfYear, .year] where
  perm := by decide
  not_short := by simp [monthAndYearDay]
  not_narrow := by decide
  separated := by decide

theorem day_of_year_in_march :
    let t : ZonedTime := ⟨.utc, .ofDate (.ofYmd 2024 3 5) 13200 0⟩
    monthAndYearDay.write t = "2024.03.065" ∧
    ∃ values, monthAndYearDay.read "2024.03.065" = .ok values ∧
      values.place .utc = .error (.conflict .dayOfYear 65 61) := by
  intro t
  have hname : monthAndYearDay.write t = "2024.03.065" := by decide
  obtain ⟨hread, hplace⟩ := day_of_year_beside_month (t :=
    t) compile_monthAndYearDay separates_monthAndYearDay rfl (show t.utc.InCalendar by decide)
  rw [hname] at hread hplace
  obtain ⟨values, hvalues⟩ := hread (by decide)
  exact ⟨hname, values, hvalues, hplace values hvalues⟩

/-- Names with a month and a day of the year do not always resolve to the day. -/
theorem day_of_year_not_always_honoured :
    ¬ ∀ (pattern : String) (f : Format) (t : ZonedTime),
    compile pattern = .ok f → f.Separates [.dayOfYear, .monthOfYear, .year] →
    Piece.numbersEnd f.pieces → t.zone = .utc → t.utc.InCalendar → ¬ t.utc.IsLeapSecond →
    (f.read (f.write t) >>= (·.place .utc)) = .ok ⟨.utc, .ofDate t.utc.date 0 0⟩ := by
  intro h
  have hmarch := h _ _ ⟨.utc, .ofDate (.ofYmd 2024 3 5) 0 0⟩ compile_monthAndYearDay
    separates_monthAndYearDay (by decide) rfl (by decide) (by decide)
  have hconflict :
      (monthAndYearDay.read (monthAndYearDay.write ⟨.utc, .ofDate (.ofYmd 2024 3 5) 0 0⟩) >>=
        (·.place .utc)) = .error (.conflict .dayOfYear 65 61) := by decide +kernel
  rw [hconflict] at hmarch
  cases hmarch

theorem eq_halfDays_of_field (hf : compile pattern = .ok f) {piece : Piece} (hp : piece ∈ f.pieces)
    (ha : piece.field? = some .amPmOfDay) : piece = .name .amPmOfDay Letter.halfDays 0 := by
  rcases mem_pieces_of_compile hf hp with ⟨text, -, rfl⟩ | ⟨letter, run, -, -, rfl⟩
  · cases ha
  · rw [Piece.field?, Letter.letter?_piece] at ha
    have hletter : letter.field = .amPmOfDay := Option.some.inj ha
    obtain rfl : letter = .amPmOfDay := by
      revert hletter
      cases letter <;> decide
    rfl

theorem write_halfDays (r : Reading) :
    (Piece.name .amPmOfDay Letter.halfDays 0).write r =
    if DateField.amPmOfDay.value r = 0 then ['A', 'M'] else ['P', 'M'] := by
  have hbounds := DateField.amPmOfDay_bounds r
  have hcases : DateField.amPmOfDay.value r = 0 ∨ DateField.amPmOfDay.value r = 1 := by omega
  change (if DateField.amPmOfDay.value r - 0 < 0 then []
    else (Letter.halfDays.getD (DateField.amPmOfDay.value r - 0).toNat "").toList) = _
  rcases hcases with h | h <;> rw [h] <;> rfl

theorem writeReading_eq_iff_of_halfDay (hf : compile pattern = .ok f) {a b : Reading}
    (hd : a.date = b.date)
    (hfields : ∀ field ∈ f.pieces.filterMap Piece.field?, field.unit.isTimeBased →
      field = .amPmOfDay) (ha : .amPmOfDay ∈ f.pieces.filterMap Piece.field?) :
    f.writeReading a = f.writeReading b ↔
    DateField.amPmOfDay.value a = DateField.amPmOfDay.value b := by
  have hdate {field : DateField} (hm : field ∈ f.pieces.filterMap Piece.field?)
      (hno : field ≠ .amPmOfDay) :
      field.value a = field.value b :=
    DateField.value_congr (fun hu ↦ hno (hfields field hm hu)) hd
  constructor
  · -- Both halves are written with two letters, so the texts agree piece by piece.
    intro h
    have hlength : ∀ piece ∈ f.pieces, (piece.write a).length ≤ (piece.write b).length := by
      intro piece hp
      by_cases hhalf : piece.field? = some .amPmOfDay
      · rw [eq_halfDays_of_field hf hp hhalf, write_halfDays, write_halfDays]
        split <;> split <;> exact Nat.le_refl 2
      · refine Nat.le_of_eq (congrArg List.length (Piece.write_congr fun letter hletter ↦ ?_))
        have hfield : piece.field? = some letter.field := congrArg (Option.map Letter.field) hletter
        exact hdate (List.mem_filterMap.2 ⟨piece, hp, hfield⟩) fun he ↦ hhalf (he ▸ hfield)
    obtain ⟨piece, hp, hhalf⟩ := List.mem_filterMap.1 ha
    have hsame := (eq_of_flatMap_eq hlength).2 h piece hp
    rw [eq_halfDays_of_field hf hp hhalf, write_halfDays, write_halfDays] at hsame
    have hbounds := DateField.amPmOfDay_bounds a
    have hbounds' := DateField.amPmOfDay_bounds b
    split at hsame <;> split at hsame
    · omega
    · cases hsame
    · cases hsame
    · omega
  · intro h
    refine writeReading_congr fun letter hl ↦ ?_
    by_cases hhalf : letter.field = .amPmOfDay
    · rw [hhalf, h]
    · exact hdate (field_mem_of_mem_letters hl) hhalf

end Format

namespace Reading

@[simp] theorem amPmOfDay_midnight (date : Date) :
    DateField.amPmOfDay.value (.ofDate date 0 0) = 0 := by
  change (ofDate date 0 0).secondOfDay / 3600 / 12 = 0
  rw [secondOfDay_midnight]
  rfl

theorem halfDay_start_iff (r : Reading) :
    ofDate r.date (r.secondOfDay / 43200 * 43200) 0 = ofDate r.date 0 0 ↔ r.hour < 12 := by
  have hday := r.secondOfDay_bounds
  rw [ofDate, ofDate, mk.injEq, hour]
  omega

end Reading

namespace ZonedTime

variable {t : ZonedTime}

theorem utc_floor?_halfDays (hz : t.zone = .utc) (hc : t.utc.InCalendar) :
    t.floor? .halfDays = some ⟨.utc, .ofDate t.utc.date (t.utc.secondOfDay / 43200 * 43200) 0⟩ := by
  obtain ⟨zone, r⟩ := t
  obtain rfl : zone = .utc := hz
  have hday := r.secondOfDay_bounds
  have hfloor : r.floor? .halfDays = some (.ofDate r.date (r.secondOfDay / 43200 * 43200) 0) := rfl
  have hcovered : (Reading.ofDate r.date (r.secondOfDay / 43200 * 43200) 0).InCalendar := by
    rw [Reading.InCalendar, Reading.date_ofDate (by omega) (by unfold Reading.secondsPerDay; omega)]
    exact hc
  rw [floor?_eq _ (by decide), utc_wall, hfloor, utc_reattach?]
  exact Zone.covered?_eq hcovered

end ZonedTime

namespace NamePattern

variable {p : NamePattern} {pattern : String} {t : ZonedTime}

/-- The name of half a day that shows year, month and day resolves to the midnight before. This is
the start of the half, and has the same name, just in the first half of the day. -/
theorem half_day_without_hour (hp : compile pattern = .ok p) (hl : p.lowest = .amPmOfDay)
    (h : p.format.Separates [.amPmOfDay, .dayOfMonth, .monthOfYear, .year]) (hz : t.zone = .utc)
    (hc : t.utc.InCalendar) :
    (Piece.numbersEnd p.format.pieces → ∃ values, p.format.read (p.write t) = .ok values) ∧
      t.floorTo? p.lowest = some ⟨.utc, .ofDate t.utc.date (t.utc.secondOfDay / 43200 * 43200) 0⟩ ∧
      ∀ values, p.format.read (p.write t) = .ok values → ∃ placed, values.place .utc = .ok placed ∧
        placed = ⟨.utc, .ofDate t.utc.date 0 0⟩ ∧
        (t.floorTo? p.lowest = some placed ↔ t.utc.hour < 12) ∧
        (p.write placed = p.write t ↔ t.utc.hour < 12) := by
  have hfloor : t.floorTo? p.lowest =
      some ⟨.utc, .ofDate t.utc.date (t.utc.secondOfDay / 43200 * 43200) 0⟩ := by
    rw [hl]
    exact ZonedTime.utc_floor?_halfDays hz hc
  rw [hfloor]
  obtain ⟨zone, r⟩ := t
  obtain rfl : zone = .utc := hz
  have hf := (of_compile hp).1
  have hwall := ZonedTime.utc_wall r
  have hnear := @ZonedTime.wall_nearCalendar ⟨.utc, r⟩ Zone.utc_regular.wellSpaced hc
  refine ⟨fun hends ↦ h.exists_read hf (by decide) hends (by decide) hnear, rfl,
    fun values hread ↦ ?_⟩
  have hv := h.shows_of_read hf (by decide) hnear hread
  rw [hwall] at hv
  have hdays : ∀ field ∈ [DateField.amPmOfDay, .dayOfMonth, .monthOfYear, .year],
      field.unit.isTimeBased → field = .amPmOfDay := by decide
  have hothers : ∀ field ∈ [DateField.amPmOfDay, .dayOfMonth, .monthOfYear, .year],
      field ∉ [DateField.dayOfMonth, .monthOfYear, .year] → field.unit.isTimeBased := by decide
  have hdate : values.date = .ok r.date :=
    hv.date_of_dayFields (.monthDay .year) (by decide)
      (fun field hno hu hm ↦ hu (hothers field hm hno)) hc rfl
  have htime := hv.timeOfDay_of_amPmOfDay fun field hu hno hm ↦ hno (hdays field hm hu)
  have hmidnight : (Reading.ofDate r.date 0 0).date = r.date :=
    Reading.date_ofDate (by decide) (by decide)
  refine ⟨_, FieldValues.place_utc_of_midnight hdate htime hc, rfl, ?_, ?_⟩
  · rw [Option.some.injEq, ZonedTime.mk.injEq, eq_self_iff_true, true_and]
    exact r.halfDay_start_iff
  · rw [write_eq_iff_wall, ZonedTime.utc_wall, ZonedTime.utc_wall,
      Format.writeReading_eq_iff_of_halfDay hf hmidnight
      (fun field hm ↦ hdays field (h.perm.subset hm))
        (h.perm.mem_iff.2 (by decide))]
    have hhour := r.hour_bounds
    rw [Reading.amPmOfDay_midnight]
    change 0 = r.hour / 12 ↔ r.hour < 12
    omega

def halfDaysOfYears : NamePattern :=
  ⟨.amPmOfDay, .ofPattern "uuuu.MM.dd.a",
    ⟨"uuuu.MM.dd.a", [.number .year 4 10, .literal ['.'], .number .monthOfYear 2 2, .literal ['.'],
      .number .dayOfMonth 2 2, .literal ['.'], .name .amPmOfDay Letter.halfDays 0]⟩⟩

theorem compile_halfDaysOfYears : compile "uuuu.MM.dd.a" = .ok halfDaysOfYears := by
  have hplaced : Letter.amPmOfDay.isPlacedBy (.ofPattern "uuuu.MM.dd.a") :=
    Letter.isPlacedBy_of_isChain [.dayOfMonth, .monthOfYear, .year] (by decide) rfl
  exact compile_eq (by decide) hplaced (by decide)

theorem separates_halfDaysOfYears :
    halfDaysOfYears.format.Separates [.amPmOfDay, .dayOfMonth, .monthOfYear, .year] where
  perm := by decide
  not_short := by simp [halfDaysOfYears]
  not_narrow := by decide
  separated := by decide

theorem afternoon_resolves_to_midnight :
    let t : ZonedTime := ⟨.utc, .ofDate (.ofYmd 2024 3 5) 54000 0⟩
    halfDaysOfYears.write t = "2024.03.05.PM" ∧
      ∃ values, halfDaysOfYears.format.read "2024.03.05.PM" = .ok values ∧
      ∃ placed, values.place .utc = .ok placed ∧ placed = ⟨.utc, .ofDate (.ofYmd 2024 3 5) 0 0⟩ ∧
      t.floorTo? .amPmOfDay ≠ some placed ∧ halfDaysOfYears.write placed ≠ "2024.03.05.PM" := by
  intro t
  have hname : halfDaysOfYears.write t = "2024.03.05.PM" := by decide
  have hafternoon : ¬ t.utc.hour < 12 := by decide
  obtain ⟨hread, -, hplace⟩ :=
    half_day_without_hour (t := t) compile_halfDaysOfYears rfl separates_halfDaysOfYears rfl
    (show t.utc.InCalendar by decide)
  rw [hname] at hread hplace
  obtain ⟨values, hvalues⟩ := hread (by decide)
  obtain ⟨placed, hplaced, heq, hfloor, hsame⟩ := hplace values hvalues
  exact ⟨hname, values, hvalues, placed, hplaced, heq, mt hfloor.1 hafternoon,
    mt hsame.1 hafternoon⟩

/-- Names of half days without an hour do not always resolve to the start of the half day. -/
theorem half_day_not_always_honoured :
    ¬ ∀ (pattern : String) (p : NamePattern) (t : ZonedTime),
    compile pattern = .ok p → p.lowest = .amPmOfDay →
      p.format.Separates [.amPmOfDay, .dayOfMonth, .monthOfYear, .year] →
      Piece.numbersEnd p.format.pieces →
      t.zone = .utc → t.utc.InCalendar → ¬ t.utc.IsLeapSecond →
      ∃ placed, (p.format.read (p.write t) >>= (·.place .utc)) = .ok placed ∧
      t.floorTo? p.lowest = some placed := by
  intro h
  obtain ⟨placed, hplaced, hfloor⟩ :=
    h _ _ ⟨.utc, .ofDate (.ofYmd 2024 3 5) 43200 0⟩ compile_halfDaysOfYears rfl
    separates_halfDaysOfYears (by decide) rfl (by decide) (by decide)
  have hmidnight :
      (halfDaysOfYears.format.read (halfDaysOfYears.write ⟨.utc, .ofDate (.ofYmd 2024 3 5) 43200 0⟩)
        >>= (·.place .utc)) = .ok ⟨.utc, .ofDate (.ofYmd 2024 3 5) 0 0⟩ := by decide +kernel
  have hnoon : (⟨.utc, .ofDate (.ofYmd 2024 3 5) 43200 0⟩ : ZonedTime).floorTo?
      halfDaysOfYears.lowest = some ⟨.utc, .ofDate (.ofYmd 2024 3 5) 43200 0⟩ := by decide +kernel
  rw [hmidnight] at hplaced
  rw [hnoon, ← Except.ok.inj hplaced] at hfloor
  exact absurd hfloor (by decide)

end NamePattern

end Almanac
