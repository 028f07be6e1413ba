import Almanac.Proofs.FieldValues.Shows
import Almanac.Proofs.ZonedTime.Floor

namespace Almanac

inductive YearFields : List DateField → Prop
  | year : YearFields [.year]
  | yearOfEra : YearFields [.yearOfEra, .era]

/-- The ways to write a period of one or more days, with its unit. -/
inductive DayFields : List DateField → CalendarUnit → Prop
  | year {ys : List DateField} : YearFields ys → DayFields ys .years
  | quarter {ys : List DateField} : YearFields ys → DayFields (.quarterOfYear :: ys) .quarters
  | month {ys : List DateField} : YearFields ys → DayFields (.monthOfYear :: ys) .months
  | monthDay {ys : List DateField} : YearFields ys →
      DayFields (.dayOfMonth :: .monthOfYear :: ys) .days
  | yearDay {ys : List DateField} : YearFields ys → DayFields (.dayOfYear :: ys) .days
  | week : DayFields [.weekOfWeekBasedYear, .weekBasedYear] .weeks
  | weekDay : DayFields [.dayOfWeek, .weekOfWeekBasedYear, .weekBasedYear] .days

namespace FieldValues

variable {v : FieldValues} {fields : List DateField} {r : Reading} {date : Date}

theorem checkYear_eq (field : DateField) {year : Int} (h₁ : Date.minYear - 2 ≤ year)
    (h₂ : year ≤ Date.maxYear + 2) : checkYear field year = .ok year := by
  unfold Date.minYear at h₁
  unfold Date.maxYear at h₂
  exact if_pos ⟨by omega, by omega⟩

theorem date_eq (hc : v.chosenDate = .ok date) (hw : v.agree .dayOfWeek date.weekday = .ok ())
    (hq : v.agree .quarterOfYear date.quarter = .ok ())
    (hd : v.agree .dayOfYear date.dayOfYear = .ok ()) :
    v.date = .ok date := by
  simp only [FieldValues.date, hc, bind, Except.bind, hw, hq, hd, pure, Except.pure]

theorem Shows.date_eq (hv : v.Shows fields r) (hc : v.chosenDate = .ok r.date) :
    v.date = .ok r.date :=
  FieldValues.date_eq hc (hv.agree rfl) (hv.agree rfl) (hv.agree rfl)

theorem dateIn_eq {year month day : Int}
    (h : v.contains .dayOfYear → v.contains .monthOfYear ∨ v.contains .dayOfMonth)
    (hm : v.monthIn = .ok month) (hd : v.dayIn = .ok day) :
    v.dateIn year = match Date.ofYmd? year month day with
      | some date => .ok date
      | none => .error (.unrepresentable (.date year month day)) := by
  rw [dateIn, if_neg (fun hn ↦ (h hn.1).elim hn.2.1 hn.2.2), hm, hd]
  change (match Date.ofYmd? year month day with
    | some date => pure date
    | none => throw _) = _
  cases Date.ofYmd? year month day <;> rfl

theorem Shows.monthIn_of_mem (hv : v.Shows fields r) (h : .monthOfYear ∈ fields) :
    v.monthIn = .ok r.date.month := by
  have hm := Date.month_bounds r.date
  rw [monthIn, if_pos (hv.contains_of_mem h)]
  exact hv.within_of_mem h 1 hm.1 hm.2.1

theorem Shows.monthIn_of_not_mem (hv : v.Shows fields r) (h : .monthOfYear ∉ fields) {quarter : Int}
    (hq : v.within .quarterOfYear 1 4 1 = .ok quarter) :
    v.monthIn = .ok ((quarter - 1) * 3 + 1) := by
  have hc := hv.contains_of_not_mem h
  rw [monthIn, if_neg (by rw [hc]; decide), hq]
  rfl

theorem Shows.dayIn_of_mem (hv : v.Shows fields r) (h : .dayOfMonth ∈ fields) :
    v.dayIn = .ok r.date.day := by
  rw [dayIn, if_pos (hv.contains_of_mem h)]
  exact hv.within_of_mem h 1 (Date.day_bounds r.date).1 r.date.day_le

theorem Shows.dayIn_of_not_mem (hv : v.Shows fields r) (h : .dayOfMonth ∉ fields)
    (h' : .alignedWeekOfMonth ∉ fields) : v.dayIn = .ok 1 := by
  have hc := hv.contains_of_not_mem h
  have hc' := hv.contains_of_not_mem h'
  rw [dayIn, if_neg (by rw [hc]; decide), if_neg (by rw [hc']; decide)]
  rfl

theorem Shows.dateIn_dayOfYear (hv : v.Shows fields r) (hd : .dayOfYear ∈ fields)
    (hm : .monthOfYear ∉ fields)
    (hm' : .dayOfMonth ∉ fields) (hc : r.date.InCalendar) : v.dateIn r.date.year = .ok r.date := by
  have hb := Date.dayOfYear_bounds r.date
  have hl := Date.yearLength_bounds r.date.year
  have hday := hv.contains_of_mem hd
  have hmonth := hv.contains_of_not_mem hm
  have hday' := hv.contains_of_not_mem hm'
  rw [dateIn, if_pos ⟨hday, by rw [hmonth]; decide, by rw [hday']; decide⟩,
    hv.within_of_mem hd 1 hb.1 (Int.le_trans hb.2 hl.2)]
  change (match Date.ofYearDay? r.date.year r.date.dayOfYear with
    | some date => pure date
    | none => throw _) = _
  rw [Date.ofYearDay?_year_dayOfYear hc]
  rfl

theorem Shows.writtenYear_eq (hv : v.Shows fields r) {ys : List DateField} (hy : YearFields ys)
    (hs : ∀ field ∈ ys, field ∈ fields) : v.writtenYear = r.date.year := by
  by_cases h : .year ∈ fields
  · rw [writtenYear, hv.get?_of_mem h]
    rfl
  · cases hy with
    | year => exact absurd (hs .year (by decide)) h
    | yearOfEra =>
      rw [writtenYear, hv.get?_of_not_mem h, hv.get?_of_mem (hs .yearOfEra (by decide)),
        hv.get?_of_mem (hs .era (by decide))]
      change (if some r.date.era = some 0 then 1 - r.date.yearOfEra else r.date.yearOfEra) =
        r.date.year
      rcases r.date.era_eq with ⟨he, hyear⟩ | ⟨he, hyear⟩
      · rcases r.date.yearOfEra_eq with hye | hye
        · omega
        · rw [he, if_pos rfl]
          omega
      · rcases r.date.yearOfEra_eq with hye | hye
        · rw [he, if_neg (by decide)]
          omega
        · omega

theorem Shows.chosenDate_of_yearFields (hv : v.Shows fields r) {ys : List DateField}
    (hy : YearFields ys) (hs : ∀ field ∈ ys, field ∈ fields) (hw : .weekOfWeekBasedYear ∉ fields)
    (hw' : .weekBasedYear ∉ fields) (hc : r.date.NearCalendar) :
    v.chosenDate = v.dateIn r.date.year := by
  have hweek := hv.contains_of_not_mem hw
  have hweekYear := hv.contains_of_not_mem hw'
  have hyear : checkYear .year r.date.year = .ok r.date.year :=
    checkYear_eq .year (by have := hc.1; omega) (by have := hc.2; omega)
  rw [chosenDate, hv.writtenYear_eq hy hs, hyear, hweek, hweekYear]
  rfl

def weekAndYearDay : List DateField :=
  [.dayOfWeek, .dayOfYear, .weekOfWeekBasedYear, .weekBasedYear]

theorem not_mem_of_forall {ds others : List DateField}
    (hn : ∀ field ∉ ds, ¬ field.unit.isTimeBased → field ∉ fields)
    (hd : ∀ field ∈ others, field ∉ ds ∧ ¬ field.unit.isTimeBased) :
    ∀ field ∈ others, field ∉ fields :=
  fun field h ↦ hn field (hd field h).1 (hd field h).2

theorem Shows.date_of_yearFields (hv : v.Shows fields r) {ys : List DateField} (hy : YearFields ys)
    (hs : ∀ field ∈ ys, field ∈ fields) (hn : ∀ field ∈ weekAndYearDay, field ∉ fields)
    (hc : r.date.NearCalendar) {month day : Int} (hm : v.monthIn = .ok month)
    (hd : v.dayIn = .ok day) (hdate : Date.ofYmd? r.date.year month day = some date)
    (hq : v.agree .quarterOfYear date.quarter = .ok ()) : v.date = .ok date := by
  have hday := hn .dayOfYear (by decide)
  apply FieldValues.date_eq
  · have hno := hv.contains_of_not_mem hday
    rw [hv.chosenDate_of_yearFields hy hs (hn _ (by decide)) (hn _ (by decide)) hc,
      dateIn_eq (fun h ↦ absurd h (by rw [hno]; decide)) hm hd, hdate]
  · exact hv.agree_of_not_mem (hn _ (by decide)) _
  · exact hq
  · exact hv.agree_of_not_mem hday _

theorem Shows.date_of_month (hv : v.Shows fields r) {ys : List DateField} (hy : YearFields ys)
    (hs : ∀ field ∈ ys, field ∈ fields)
    (hn : ∀ field ∈ .dayOfMonth :: .alignedWeekOfMonth :: weekAndYearDay, field ∉ fields)
    (hc : r.date.NearCalendar) {month : Int} (hm : v.monthIn = .ok month)
    (hdate : Date.ofYmd? r.date.year month 1 = some date)
    (hq : v.agree .quarterOfYear date.quarter = .ok ()) : v.date = .ok date := by
  have hday := hv.dayIn_of_not_mem (hn .dayOfMonth (by decide)) (hn .alignedWeekOfMonth (by decide))
  refine hv.date_of_yearFields hy hs (fun field hf ↦ hn field ?_) hc hm hday hdate hq
  exact List.mem_cons_of_mem _ (List.mem_cons_of_mem _ hf)

theorem Shows.chosenDate_of_week (hv : v.Shows fields r) (hw : .weekOfWeekBasedYear ∈ fields)
    (hw' : .weekBasedYear ∈ fields) (hd : .dayOfMonth ∉ fields) (hd' : .dayOfYear ∉ fields)
    (hy : .year ∉ fields) (hy' : .yearOfEra ∉ fields) {weekday : Int}
    (hday : v.within .dayOfWeek 1 7 1 = .ok weekday) (hc : r.date.NearCalendar)
    (hdate : Date.ofWeekDate? r.date.weekYear r.date.week weekday = some date) :
    v.chosenDate = .ok date := by
  have hnear := Date.weekYear_near r.date
  have hcheck (field : DateField) : checkYear field r.date.weekYear = .ok r.date.weekYear :=
    checkYear_eq field (by have := hc.1; omega) (by have := hc.2; omega)
  have hyear : v.writtenYear = r.date.weekYear := by
    rw [writtenYear, hv.get?_of_not_mem hy, hv.get?_of_not_mem hy', hv.get?_of_mem hw']
    rfl
  have hweek := hv.within_of_mem hw 1 (Date.week_bounds r.date).1 (Date.week_bounds r.date).2
  have hbound : v.weekDate r.date.weekYear = .ok date := by
    rw [weekDate, hv.get?_of_mem hw', hweek, hday]
    change (checkYear .weekBasedYear r.date.weekYear >>= fun weekYear ↦
      match Date.ofWeekDate? weekYear r.date.week weekday with
      | some date => pure date
      | none => throw _) = _
    rw [hcheck]
    change (match Date.ofWeekDate? r.date.weekYear r.date.week weekday with
      | some date => pure date
      | none => throw _) = _
    rw [hdate]
    rfl
  rw [chosenDate, hyear, hcheck, hv.contains_of_mem hw, hv.contains_of_not_mem hd,
    hv.contains_of_not_mem hd']
  exact hbound

/-- With month and day, the search through calendar years finds the day itself or its namesake. -/
theorem Shows.dateInWeekYear_eq (hv : v.Shows fields r) (hm : .monthOfYear ∈ fields)
    (hd : .dayOfMonth ∈ fields)
    (hc : r.date.InCalendar) : v.dateInWeekYear r.date.weekYear = .ok r.date.named := by
  have hcontains := hv.contains_of_mem hm
  have hsearch : v.dateInWeekYear? r.date.weekYear = r.date.inWeekYear? := by
    funext year
    rw [dateInWeekYear?, dateIn_eq (fun _ ↦ .inl hcontains) (hv.monthIn_of_mem hm)
      (hv.dayIn_of_mem hd), Date.inWeekYear?]
    cases Date.ofYmd? year r.date.month r.date.day <;> rfl
  rw [dateInWeekYear, hsearch, Date.findSome?_inWeekYear? hc]

theorem chosenDate_of_weekBasedYear {weekYear : Int} (hw : v.get? .weekBasedYear = some weekYear)
    (hy : v.get? .year = none) (hy' : v.get? .yearOfEra = none)
    (hd : v.contains .dayOfMonth ∨ v.contains .dayOfYear) :
    v.chosenDate = checkYear .year weekYear >>= v.dateInWeekYear := by
  have hyear : v.writtenYear = weekYear := by
    rw [writtenYear, hy, hy', hw]
    rfl
  have hcontains : v.contains .weekBasedYear = true := by
    rw [contains, hw]
    rfl
  have hno {field : DateField} (h : v.get? field = none) : ¬ v.contains field := by
    rw [contains, h]
    decide
  rw [chosenDate, hyear]
  refine congrArg (checkYear .year weekYear >>= ·) (funext fun year ↦ ?_)
  dsimp only
  rw [if_neg (fun h ↦ h.2 hd), if_pos ⟨hcontains, hno hy, hno hy', hd⟩]

theorem Shows.chosenDate_of_weekBasedYear (hv : v.Shows fields r) (hw : .weekBasedYear ∈ fields)
    (hy : .year ∉ fields) (hy' : .yearOfEra ∉ fields) (hd : .dayOfMonth ∈ fields)
    (hc : r.date.NearCalendar) :
    v.chosenDate = v.dateInWeekYear r.date.weekYear := by
  have hnear := Date.weekYear_near r.date
  have hcheck : checkYear .year r.date.weekYear = .ok r.date.weekYear :=
    checkYear_eq .year (by have := hc.1; omega) (by have := hc.2; omega)
  rw [FieldValues.chosenDate_of_weekBasedYear (hv.get?_of_mem hw) (hv.get?_of_not_mem hy)
    (hv.get?_of_not_mem hy') (.inl (hv.contains_of_mem hd))]
  change checkYear .year r.date.weekYear >>= v.dateInWeekYear = _
  rw [hcheck]
  rfl

/-- Fields that write a period place its first day, if the calendar has that day. -/
theorem Shows.date_of_dayFields (hv : v.Shows fields r) {ds : List DateField} {unit : CalendarUnit}
    (h : DayFields ds unit) (hs : ∀ field ∈ ds, field ∈ fields)
    (hn : ∀ field ∉ ds, ¬ field.unit.isTimeBased → field ∉ fields) (hc : r.date.InCalendar)
    (hdate : r.date.floor? unit = some date) : v.date = .ok date := by
  have hnear := hc.nearCalendar
  have hsub {field : DateField} {ys : List DateField} (hs : ∀ other ∈ field :: ys, other ∈ fields) :
      ∀ other ∈ ys, other ∈ fields := fun other ho ↦ hs other (List.mem_cons_of_mem _ ho)
  cases h with
  | year hy =>
    have hm : .monthOfYear ∉ fields := hn _ (by cases hy <;> decide) (by decide)
    have hq : .quarterOfYear ∉ fields := hn _ (by cases hy <;> decide) (by decide)
    exact hv.date_of_month hy hs (not_mem_of_forall hn (by cases hy <;> decide)) hnear
      (hv.monthIn_of_not_mem hm (hv.within_of_not_mem hq 1 4 1)) hdate (hv.agree_of_not_mem hq _)
  | quarter hy =>
    have hm : .monthOfYear ∉ fields := hn _ (by cases hy <;> decide) (by decide)
    have hq : .quarterOfYear ∈ fields := hs _ (by simp)
    have hb := r.date.quarter_bounds
    have hmonth := hv.monthIn_of_not_mem hm (hv.within_of_mem hq 1 hb.1 hb.2)
    rw [show DateField.quarterOfYear.value r = r.date.quarter from rfl, Int.mul_comm] at hmonth
    exact hv.date_of_month hy (hsub hs) (not_mem_of_forall hn (by cases hy <;> decide)) hnear hmonth
      hdate (hv.agree (Date.quarter_floor? hdate).symm)
  | month hy =>
    have hm : .monthOfYear ∈ fields := hs _ (by simp)
    have hq : .quarterOfYear ∉ fields := hn _ (by cases hy <;> decide) (by decide)
    exact hv.date_of_month hy (hsub hs) (not_mem_of_forall hn (by cases hy <;> decide)) hnear
      (hv.monthIn_of_mem hm) hdate (hv.agree_of_not_mem hq _)
  | monthDay hy =>
    have hm : .monthOfYear ∈ fields := hs _ (by simp)
    have hd : .dayOfMonth ∈ fields := hs _ (by simp)
    obtain rfl := Option.some.inj hdate
    exact hv.date_of_yearFields hy (hsub (hsub hs))
      (not_mem_of_forall hn (by cases hy <;> decide)) hnear
      (hv.monthIn_of_mem hm) (hv.dayIn_of_mem hd) (Date.ofYmd?_year_month_day hc) (hv.agree rfl)
  | yearDay hy =>
    have hy' : .dayOfYear ∈ fields := hs _ (by simp)
    have hm : .monthOfYear ∉ fields := hn _ (by cases hy <;> decide) (by decide)
    have hd : .dayOfMonth ∉ fields := hn _ (by cases hy <;> decide) (by decide)
    have hw : .weekOfWeekBasedYear ∉ fields := hn _ (by cases hy <;> decide) (by decide)
    have hw' : .weekBasedYear ∉ fields := hn _ (by cases hy <;> decide) (by decide)
    obtain rfl := Option.some.inj hdate
    apply hv.date_eq
    rw [hv.chosenDate_of_yearFields hy (hsub hs) hw hw' hnear, hv.dateIn_dayOfYear hy' hm hd hc]
  | week =>
    have hd : .dayOfWeek ∉ fields := hn _ (by decide) (by decide)
    have hy : .dayOfYear ∉ fields := hn _ (by decide) (by decide)
    have hq : .quarterOfYear ∉ fields := hn _ (by decide) (by decide)
    have hfirst : Date.ofWeekDate? r.date.weekYear r.date.week 1 = some date := by
      rw [Date.ofWeekDate?_week, Int.sub_self, Int.add_zero]
      exact hdate
    have hchosen := hv.chosenDate_of_week (hs _ (by decide)) (hs _ (by decide))
      (hn _ (by decide) (by decide)) hy
      (hn _ (by decide) (by decide)) (hn _ (by decide) (by decide)) (hv.within_of_not_mem hd 1 7 1)
      hnear hfirst
    exact FieldValues.date_eq hchosen (hv.agree_of_not_mem hd _) (hv.agree_of_not_mem hq _)
      (hv.agree_of_not_mem hy _)
  | weekDay =>
    have hb := r.date.weekday_bounds
    have hd : .dayOfWeek ∈ fields := hs _ (by decide)
    have hday : Date.ofWeekDate? r.date.weekYear r.date.week r.date.weekday = some r.date := by
      rw [Date.ofWeekDate?_week, Date.weekStart_add_weekday, Date.covered?_of_inCalendar hc]
    obtain rfl := Option.some.inj hdate
    apply hv.date_eq
    exact hv.chosenDate_of_week (hs _ (by decide)) (hs _ (by decide)) (hn _ (by decide) (by decide))
      (hn _ (by decide) (by decide)) (hn _ (by decide) (by decide)) (hn _ (by decide) (by decide))
      (hv.within_of_mem hd 1 hb.1 hb.2) hnear hday

end FieldValues

end Almanac
