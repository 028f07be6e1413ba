import Almanac.Proofs.FieldValues.Date
import Almanac.Proofs.FieldValues.TimeOfDay
import Almanac.Proofs.LetterSet

namespace Almanac

/-- The ways to write a period of the calendar or a stretch of a day, with its unit. -/
inductive PeriodFields : List DateField → CalendarUnit → Prop
  | days {ds : List DateField} {unit : CalendarUnit} : DayFields ds unit → PeriodFields ds unit
  | time {ts ds : List DateField} {unit : CalendarUnit} :
      TimeFields ts unit → DayFields ds .days → PeriodFields (ts ++ ds) unit

variable {fields ts ds : List DateField} {unit : CalendarUnit}

theorem TimeFields.isTimeBased (h : TimeFields ts unit) : ∀ field ∈ ts, field.unit.isTimeBased := by
  cases h with
  | hour hh | minute hh | second hh | nano hh => cases hh <;> decide
  | milliOfDay | nanoOfDay => decide

theorem DayFields.not_isTimeBased (h : DayFields ds unit) :
    ∀ field ∈ ds, ¬ field.unit.isTimeBased := by
  cases h with
  | year hy | quarter hy | month hy | monthDay hy | yearDay hy => cases hy <;> decide
  | week | weekDay => decide

theorem TimeFields.exists_finest (h : TimeFields ts unit) :
    ∃ finest ∈ ts, finest.floorUnit = unit ∧
    ∀ field ∈ ts, field = finest ∨ finest.rank < field.rank := by
  cases h with
  | hour hh | minute hh | second hh | nano hh =>
    cases hh <;> exact ⟨_, List.mem_cons_self, rfl, by decide⟩
  | milliOfDay | nanoOfDay => exact ⟨_, List.mem_cons_self, rfl, by decide⟩

theorem DayFields.exists_finest (h : DayFields ds unit) :
    ∃ finest ∈ ds, finest.floorUnit = unit ∧
    ∀ field ∈ ds, field = finest ∨ finest.rank < field.rank := by
  cases h with
  | year hy | quarter hy | month hy | monthDay hy | yearDay hy =>
    cases hy <;> exact ⟨_, List.mem_cons_self, rfl, by decide⟩
  | week | weekDay => exact ⟨_, List.mem_cons_self, rfl, by decide⟩

namespace PeriodFields

variable {shape : List DateField}

theorem exists_finest (h : PeriodFields shape unit) :
    ∃ finest ∈ shape, finest.floorUnit = unit ∧
    ∀ field ∈ shape, field = finest ∨ finest.rank < field.rank := by
  cases h with
  | days hd => exact hd.exists_finest
  | time ht hd =>
    obtain ⟨finest, hmem, hunit, hleast⟩ := ht.exists_finest
    refine ⟨finest, List.mem_append_left _ hmem, hunit, fun field hf ↦ ?_⟩
    rcases List.mem_append.1 hf with hf | hf
    · exact hleast field hf
    · exact .inr (DateField.rank_lt_rank (ht.isTimeBased _ hmem) (hd.not_isTimeBased _ hf))

theorem nanoOfSecond_not_mem (h : PeriodFields shape unit) (hm : .milliOfDay ∈ shape) :
    .nanoOfSecond ∉ shape := by
  cases h with
  | days hd => exact absurd rfl (hd.not_isTimeBased _ hm)
  | @time _ ds _ ht hd =>
    have hno {field : DateField} (hu : field.unit.isTimeBased) : field ∉ ds :=
      fun hf ↦ hd.not_isTimeBased field hf hu
    intro hn
    have hm := (List.mem_append.1 hm).resolve_right (hno rfl)
    have hn := (List.mem_append.1 hn).resolve_right (hno rfl)
    cases ht with
    | hour hh | minute hh | second hh | nano hh => cases hh <;> exact absurd hm (by decide)
    | milliOfDay => exact absurd hn (by decide)
    | nanoOfDay => exact absurd hm (by decide)

theorem floorUnit_lowest (h : PeriodFields shape unit) {f : Format}
    (hp : (f.pieces.filterMap Piece.field?).Perm shape) {lowest : Letter}
    (hl : f.letters.lowest? = some lowest) :
    lowest.field.floorUnit = unit := by
  have hfields : f.pieces.filterMap Piece.field? =
      (f.pieces.filterMap Piece.letter?).map Letter.field :=
    (List.map_filterMap ..).symm
  have hlowest : lowest.field ∈ shape := by
    rw [← hp.mem_iff, hfields]
    exact List.mem_map_of_mem (LetterSet.mem_ofList.1 (LetterSet.mem_of_lowest? hl))
  obtain ⟨finest, hmem, hunit, hleast⟩ := h.exists_finest
  have hletter := hp.mem_iff.2 hmem
  rw [hfields, List.mem_map] at hletter
  obtain ⟨letter, hletter, rfl⟩ := hletter
  rcases hleast _ hlowest with he | hlt
  · rw [he, hunit]
  · rcases Letter.field_rank_le (LetterSet.rank_le_of_lowest? hl (LetterSet.mem_ofList.2 hletter))
      with hle | ⟨rfl, rfl⟩
    · omega
    · exact absurd hmem (h.nanoOfSecond_not_mem hlowest)

end PeriodFields

/-- Values that show the fields of a period place its start, if the calendar and the zone have
it. -/
theorem FieldValues.Shows.place_of_periodFields {v : FieldValues} {r start : Reading}
    {shape : List DateField} (hv : v.Shows fields r) (h : PeriodFields shape unit)
    (hp : fields.Perm shape) (hc : r.InCalendar) (hleap : ¬ r.IsLeapSecond)
    (hs : r.floor? unit = some start) (zone : Zone) :
    v.place zone =
      match zone.localize? start with
      | some t => .ok t
      | none => .error (.unrepresentable (.wall start zone.name)) := by
  obtain ⟨date, hdate, rfl⟩ := Option.map_eq_some_iff.1 hs
  cases h with
  | days hd =>
    have hday : v.date = .ok date :=
      hv.date_of_dayFields hd (fun _ ↦ hp.mem_iff.2) (fun _ hf _ ↦ mt hp.mem_iff.1 hf) hc hdate
    have htime : v.timeOfDay = .ok (0, 0) :=
      hv.timeOfDay_of_not_mem fun field hu hf ↦ hd.not_isTimeBased field (hp.mem_iff.1 hf) hu
    have hmidnight : r.flooredTime unit = (0, 0) := by cases hd <;> rfl
    rw [hmidnight]
    exact place_eq hday htime zone
  | @time ts ds _ ht hd =>
    have hsame : r.date.floor? unit = some r.date := by cases ht <;> rfl
    obtain rfl : r.date = date := Option.some.inj (hsame.symm.trans hdate)
    have hday : v.date = .ok r.date := by
      refine hv.date_of_dayFields hd
        (fun field hf ↦ hp.mem_iff.2 (List.mem_append_right _ hf)) ?_ hc rfl
      intro field hf hu hm
      rcases List.mem_append.1 (hp.mem_iff.1 hm) with hm | hm
      · exact hu (ht.isTimeBased field hm)
      · exact hf hm
    have htime : v.timeOfDay = .ok (r.flooredTime unit) := by
      refine hv.timeOfDay_of_timeFields ht
        (fun field hf ↦ hp.mem_iff.2 (List.mem_append_left _ hf)) ?_ hleap
      intro field hf hu hm
      rcases List.mem_append.1 (hp.mem_iff.1 hm) with hm | hm
      · exact hf hm
      · exact hd.not_isTimeBased field hm hu
    exact place_eq hday htime zone

namespace Format

/-- The name of a period resolves to the floor of the instant it was written at. Where the start of
the period is shown twice and the instant has the later of the two offsets, the name stands for the
earlier showing. -/
theorem period_name_resolves {pattern : String} {f : Format} (hf : compile pattern = .ok f)
    (hu : f.Unambiguous) (hy : ∀ letter, .shortYear letter ∉ f.pieces)
    (hw : ∀ width, .fraction width ∈ f.pieces → width = 9) {shape : List DateField}
    (hshape : PeriodFields shape unit) (hp : (f.pieces.filterMap Piece.field?).Perm shape)
    {lowest : Letter} (hl : f.letters.lowest? = some lowest) {t : ZonedTime} (ht : t.utc.InCalendar)
    (hwall : t.wall.InCalendar) (hleap : ¬ t.utc.IsLeapSecond)
    (hz : lowest.unit = .nanos → t.zone.Regular) {floored : ZonedTime}
    (hr : t.floorTo? lowest = some floored) :
    ∃ placed, (f.read (f.write t) >>= (·.place t.zone)) = .ok placed ∧
      (placed = floored ∨ ∃ (start : Reading) (earlier : Int),
        t.zone.wallOffsets start.second = .twice earlier t.offset ∧
        floored = ⟨t.zone, start.shift (-t.offset)⟩ ∧ placed = ⟨t.zone, start.shift (-earlier)⟩ ∧
        placed.utc < floored.utc) := by
  have hunit := hshape.floorUnit_lowest hp hl
  have hnanos : unit = .nanos → t.zone.Regular ∧ t.utc.InCalendar := by
    intro he
    refine ⟨hz ?_, ht⟩
    subst he
    revert hunit
    cases lowest <;> decide
  rw [ZonedTime.floorTo?_eq, hunit, ZonedTime.floor?_eq_of_regular hnanos] at hr
  obtain ⟨start, hstart, hattach⟩ := Option.bind_eq_some_iff.1 hr
  obtain ⟨values, hread, hv⟩ := read_shows (fun _ ↦ sound_of_compile hf) hu hwall.nearCalendar hy hw
  have hplace := hv.place_of_periodFields hshape hp hwall hleap hstart t.zone
  rw [write, hread]
  change ∃ placed, values.place t.zone = .ok placed ∧ _
  rw [hplace]
  rcases t.zone.attach?_cases start (some t.offset) with he |
    ⟨earlier, later, htwice, hoffset, hlater, hearlier⟩
  · rw [← he, show t.zone.attach? start (some t.offset) = some floored from hattach]
    exact ⟨floored, rfl, .inl rfl⟩
  · obtain rfl := Option.some.inj hoffset
    obtain rfl := Option.some.inj (hattach.symm.trans hlater)
    have hlt := Zone.later_lt_earlier htwice
    rw [hearlier]
    refine ⟨_, rfl, .inr ⟨start, earlier, htwice, rfl, rfl, .inl ?_⟩⟩
    change start.second + -earlier < start.second + -t.offset
    omega

theorem period_name_of_new_year :
    let f : Format := ⟨"YYYY-'W'ww", [.number .weekBasedYear 4 10, .literal ['-', 'W'],
      .number .weekOfWeekBasedYear 2 2]⟩
    let t : ZonedTime := ⟨.asiaKolkata, ⟨1609441200, 0⟩⟩
    f.write t = "2020-W53" ∧
      (f.read (f.write t) >>= (·.place .asiaKolkata)) = .ok ⟨.asiaKolkata, ⟨1609093800, 0⟩⟩ := by
  intro f t
  have hf : compile "YYYY-'W'ww" = .ok f := by decide
  have hshape : PeriodFields [.weekOfWeekBasedYear, .weekBasedYear] .weeks := .days .week
  have hr : t.floorTo? .weekOfWeekBasedYear = some ⟨.asiaKolkata, ⟨1609093800, 0⟩⟩ := by decide
  obtain ⟨placed, hplaced, rfl | ⟨start, earlier, htwice, hstart, -⟩⟩ :=
    period_name_resolves hf ⟨by decide, by decide, by decide, by decide⟩ (by simp [f]) (by simp [f])
      hshape (by decide) (show f.letters.lowest? = some .weekOfWeekBasedYear by decide)
      (show t.utc.InCalendar by decide) (by decide) (by decide) (by decide) hr
  · exact ⟨by decide, hplaced⟩
  · have hsecond : start.second = 1609113600 := by
      have hutc := congrArg (fun t : ZonedTime ↦ t.utc.second) hstart
      have hoffset : t.offset = 19800 := by decide
      rw [hoffset] at hutc
      change 1609093800 = start.second + -19800 at hutc
      omega
    have honce : Zone.asiaKolkata.wallOffsets 1609113600 = .once 19800 := by decide
    rw [hsecond] at htwice
    cases honce.symm.trans htwice

end Format

end Almanac
