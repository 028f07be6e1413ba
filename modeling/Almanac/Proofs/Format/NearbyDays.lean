import Almanac.Proofs.Date.Distance
import Almanac.Proofs.FieldValues.Shows
import Almanac.Proofs.NamePattern
import Almanac.Proofs.ZonedTime.Period

namespace Almanac

namespace Date

variable {a b : Date}

def Nearby (a b : Date) : Prop := a.epochDay ≤ b.epochDay + 9 ∧ b.epochDay ≤ a.epochDay + 9

theorem Nearby.symm (h : a.Nearby b) : b.Nearby a := ⟨h.2, h.1⟩

theorem firstOfMonth_add_twentyEight_le (index : Int) :
    (firstOfMonth index).epochDay + 28 ≤ (firstOfMonth (index + 1)).epochDay := by
  have hlength := @monthLength_bounds (index / 12) (index % 12 + 1) (by omega) (by omega)
  rw [firstOfMonth_succ]
  omega

theorem Nearby.monthIndex_le (h : a.Nearby b) : b.monthIndex ≤ a.monthIndex + 1 := by
  have hnext := (firstOfMonth_bounds a).2
  have hmonth := firstOfMonth_add_twentyEight_le (a.monthIndex + 1)
  have hnear := h.2
  by_contra hlater
  have hfirst : (firstOfMonth (a.monthIndex + 1 + 1)).epochDay ≤ b.epochDay :=
    firstOfMonth_le_iff.2 (by omega)
  omega

theorem Nearby.monthIndex_eq (h : a.Nearby b) (hm : a.month = b.month) :
    a.monthIndex = b.monthIndex := by
  have hle := h.monthIndex_le
  have hle' := h.symm.monthIndex_le
  have ha := monthIndex_emod a
  have hb := monthIndex_emod b
  omega

theorem Nearby.eq_of_day_eq (h : a.Nearby b) (hd : a.day = b.day) : a = b := by
  have ha := epochDay_eq_firstOfMonth a
  have hb := epochDay_eq_firstOfMonth b
  obtain ⟨hnear, hnear'⟩ := id h
  have hmonths := firstOfMonth_add_twentyEight_le
  rcases Int.lt_trichotomy a.monthIndex b.monthIndex with hlt | heq | hlt
  · have hnext : b.monthIndex = a.monthIndex + 1 := by have := h.monthIndex_le; omega
    have hmonth := hmonths a.monthIndex
    rw [hnext] at hb
    omega
  · exact eq_of_monthIndex_eq heq hd
  · have hnext : a.monthIndex = b.monthIndex + 1 := by have := h.symm.monthIndex_le; omega
    have hmonth := hmonths b.monthIndex
    rw [hnext] at ha
    omega

theorem Nearby.eq_of_dayOfYear_eq (h : a.Nearby b) (hd : a.dayOfYear = b.dayOfYear) : a = b := by
  obtain ⟨hnear, hnear'⟩ := id h
  have hyears {x y : Int} (hlt : x < y) : yearStart x + 365 ≤ yearStart y := by
    have hstart := yearStart_succ x
    have hlength := yearLength_bounds x
    have hle := yearStart_le_yearStart (show x + 1 ≤ y by omega)
    omega
  unfold dayOfYear at hd
  rcases Int.lt_trichotomy a.year b.year with hlt | heq | hlt
  · have hyear := hyears hlt
    omega
  · rw [heq] at hd
    exact eq_of_epochDay_eq (by omega)
  · have hyear := hyears hlt
    omega

theorem week_ne_of_epochDay_eq (h : b.epochDay = a.epochDay + 7) : a.week ≠ b.week := by
  have hthursday : b.thursday.epochDay = a.thursday.epochDay + 7 := by
    rw [thursday_epochDay, thursday_epochDay]
    omega
  have ha := year_bounds a.thursday
  have hb := year_bounds b.thursday
  have hstart := yearStart_succ a.thursday.year
  have hlength := yearLength_bounds a.thursday.year
  unfold week dayOfYear
  by_cases hyear : b.thursday.year = a.thursday.year
  · rw [hyear] at hb ⊢
    omega
  · have hlater : a.thursday.year + 1 ≤ b.thursday.year := by
      have hle := year_le (a := a.thursday) (b := b.thursday) (by omega)
      omega
    have hnewYear := yearStart_le_yearStart hlater
    omega

theorem Nearby.eq_of_weekday_eq (h : a.Nearby b) (hd : a.weekday = b.weekday)
    (hw : a.week = b.week) : a = b := by
  obtain ⟨hnear, hnear'⟩ := id h
  unfold weekday at hd
  obtain hsame | hnext | hbefore :
      a.epochDay = b.epochDay ∨ b.epochDay = a.epochDay + 7 ∨ a.epochDay = b.epochDay + 7 := by
    omega
  · exact eq_of_epochDay_eq hsame
  · exact absurd hw (week_ne_of_epochDay_eq hnext)
  · exact absurd hw.symm (week_ne_of_epochDay_eq hbefore)

/-- Aligned weeks begin on the first of their month. -/
theorem Nearby.eq_of_alignedWeek_eq (h : a.Nearby b) (hm : a.month = b.month)
    (hw : (a.day - 1) / 7 = (b.day - 1) / 7)
    (hd : a.weekday = b.weekday ∨ (a.day - 1) % 7 = (b.day - 1) % 7) : a = b := by
  have ha := epochDay_eq_firstOfMonth a
  have hb := epochDay_eq_firstOfMonth b
  rw [h.monthIndex_eq hm] at ha
  apply eq_of_epochDay_eq
  rcases hd with hd | hd
  · unfold weekday at hd
    omega
  · omega

end Date

def DateField.TellDays (fields : List DateField) : Prop :=
  .dayOfMonth ∈ fields ∨ .dayOfYear ∈ fields ∨ .dayOfWeek ∈ fields ∧ .weekOfWeekBasedYear ∈ fields ∨
    .monthOfYear ∈ fields ∧ .alignedWeekOfMonth ∈ fields ∧
    (.dayOfWeek ∈ fields ∨ .alignedDayOfWeekInMonth ∈ fields)

instance (fields : List DateField) : Decidable (DateField.TellDays fields) := by
  unfold DateField.TellDays
  infer_instance

theorem DateField.TellDays.date_eq {fields : List DateField} {a b : Reading} (h : TellDays fields)
    (hnear : a.date.Nearby b.date) (hv : ∀ field ∈ fields, field.value a = field.value b) :
    a.date = b.date := by
  rcases h with hday | hday | ⟨hday, hweek⟩ | ⟨hmonth, hweek, hday⟩
  · exact hnear.eq_of_day_eq (hv _ hday)
  · exact hnear.eq_of_dayOfYear_eq (hv _ hday)
  · exact hnear.eq_of_weekday_eq (hv _ hday) (hv _ hweek)
  · have hweeks : (a.date.day - 1) / 7 + 1 = (b.date.day - 1) / 7 + 1 := hv _ hweek
    refine hnear.eq_of_alignedWeek_eq (hv _ hmonth) (by omega) ?_
    rcases hday with hday | hday
    · exact .inl (hv _ hday)
    · have hdays : (a.date.day - 1) % 7 + 1 = (b.date.day - 1) % 7 + 1 := hv _ hday
      exact .inr (by omega)

theorem Reading.halfDay_eq (r : Reading) :
    r.period .halfDays = 2 * r.date.epochDay + DateField.amPmOfDay.value r := by
  simp only [period, date, DateField.value, hour, secondOfDay, secondsPerDay]
  omega

namespace NamePattern

variable {pattern : String} {p : NamePattern} {a b : ZonedTime}

/-- Half days within nine days of each other have different names. -/
def TellsHalfDays (p : NamePattern) : Prop :=
  ∀ a b : Reading, a.date.NearCalendar → b.date.NearCalendar → a.date.Nearby b.date →
    p.format.writeReading a = p.format.writeReading b → a.period .halfDays = b.period .halfDays

theorem lowest_of_halfDays (hu : p.unit = .halfDays) : p.lowest = .amPmOfDay := by
  have hunit : p.lowest.unit = .halfDays := hu
  revert hunit
  cases p.lowest <;> decide

theorem field_of_halfDays (hp : compile pattern = .ok p) (hu : p.unit = .halfDays) {letter : Letter}
    (hl : letter ∈ p.format.letters) : letter = .amPmOfDay ∨ ¬ letter.field.unit.isTimeBased := by
  obtain ⟨-, hletters, hlowest⟩ := of_compile hp
  rw [← hletters] at hl
  have hrank := LetterSet.rank_le_of_lowest? hlowest hl
  rw [lowest_of_halfDays hu] at hrank
  revert hrank
  cases letter <;> decide

theorem write_of_halfDay_eq (hp : compile pattern = .ok p) (hu : p.unit = .halfDays)
    (h : a.wall.period .halfDays = b.wall.period .halfDays) : p.write a = p.write b := by
  have ha := DateField.amPmOfDay_bounds a.wall
  have hb := DateField.amPmOfDay_bounds b.wall
  rw [Reading.halfDay_eq, Reading.halfDay_eq] at h
  have hdate : a.wall.date = b.wall.date := Date.eq_of_epochDay_eq (by omega)
  refine congrArg String.ofList (Format.writeReading_congr fun letter hl ↦ ?_)
  rcases field_of_halfDays hp hu hl with rfl | hcoarse
  · change DateField.amPmOfDay.value a.wall = DateField.amPmOfDay.value b.wall
    omega
  · exact DateField.value_congr hcoarse hdate

/-- Patterns that can be read back and show a day beside its half tell half days apart. -/
theorem tellsHalfDays_of_unambiguous (hp : compile pattern = .ok p) (hu : p.unit = .halfDays)
    (hf : p.format.Unambiguous) (hy : ∀ letter, .shortYear letter ∉ p.format.pieces)
    (hd : DateField.TellDays (p.format.pieces.filterMap Piece.field?)) : p.TellsHalfDays := by
  obtain ⟨hcompile, hletters, hlowest⟩ := of_compile hp
  have hw (width : Nat) (hm : .fraction width ∈ p.format.pieces) : width = 9 := by
    rcases field_of_halfDays hp hu (Format.mem_letters_of_piece hm rfl) with he | hcoarse
    · cases he
    · exact absurd rfl hcoarse
  have hhalf : .amPmOfDay ∈ p.format.pieces.filterMap Piece.field? := by
    have hl : p.lowest ∈ p.format.letters := hletters ▸ LetterSet.mem_of_lowest? hlowest
    rw [lowest_of_halfDays hu] at hl
    exact Format.field_mem_of_mem_letters hl
  intro a b ha hb hnear hname
  have hvalue := Format.value_eq_of_unambiguous
    (fun _ ↦ Format.sound_of_compile hcompile) hf ha hb hy hw hname
  rw [Reading.halfDay_eq, Reading.halfDay_eq, hd.date_eq hnear hvalue, hvalue _ hhalf]

end NamePattern

end Almanac
