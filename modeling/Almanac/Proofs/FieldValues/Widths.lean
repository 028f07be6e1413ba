import Almanac.FieldValues.Place
import Almanac.Proofs.Date.Months
import Almanac.Proofs.Date.Week
import Almanac.Proofs.Date.YearEnd
import Almanac.Proofs.Format.Positions

namespace Almanac

open Checked Decimal

def DateField.Holds (field : DateField) (value : Int) : Prop :=
  Count.least ≤ value ∧ value ≤ Count.greatest ∧
    (value < 0 → field = .year ∨ field = .weekBasedYear)

theorem DateField.holds_of_nonneg {value : Int} (h : 0 ≤ value) (hg : value ≤ 9223372036854775807)
    (field : DateField) :
    field.Holds value :=
  ⟨Int.le_trans (by decide) h, hg, fun hlt ↦ absurd hlt (Int.not_lt.2 h)⟩

namespace FieldValues

def IsYear (year : Int) : Prop := -2147483648 ≤ year ∧ year ≤ 2147483647

instance (year : Int) : Decidable (IsYear year) :=
  inferInstanceAs (Decidable (-2147483648 ≤ year ∧ year ≤ 2147483647))

def Bounded (v : FieldValues) : Prop := ∀ field value, v.get? field = some value → field.Holds value

def checkedWrittenYear (v : FieldValues) : Checked Int :=
  match v.get? .year, v.get? .yearOfEra with
  | some year, _ => pure year
  | none, some yearOfEra => if v.get? .era = some 0 then int64 (1 - yearOfEra) else pure yearOfEra
  | none, none => pure ((v.get? .weekBasedYear).getD 1970)

def checkedWithin (v : FieldValues) (field : DateField) (low high default : Int) : Checked Int :=
  match v.get? field with
  | none => pure default
  | some value =>
    if low ≤ value ∧ value ≤ high then unsigned32 value else throw (.outOfRange field value)

def checkedMonthIn (v : FieldValues) : Checked Int :=
  if v.contains .monthOfYear then v.checkedWithin .monthOfYear 1 12 1
  else do
    let quarter ← v.checkedWithin .quarterOfYear 1 4 1
    let before ← unsigned32 (quarter - 1)
    let months ← unsigned32 (before * 3)
    unsigned32 (months + 1)

def checkedDayIn (v : FieldValues) : Checked Int :=
  if v.contains .dayOfMonth then v.checkedWithin .dayOfMonth 1 31 1
  else if v.contains .alignedWeekOfMonth then do
    let week ← v.checkedWithin .alignedWeekOfMonth 1 5 1
    let day ← v.checkedWithin .alignedDayOfWeekInMonth 1 7 1
    let before ← unsigned32 (week - 1)
    let days ← unsigned32 (before * 7)
    unsigned32 (days + day)
  else return 1

def checkedDateIn (v : FieldValues) (year : Int) : Checked Date :=
  if v.contains .dayOfYear ∧ ¬ v.contains .monthOfYear ∧ ¬ v.contains .dayOfMonth then do
    let day ← v.checkedWithin .dayOfYear 1 366 1
    match Date.ofYearDay? year day with
    | some date => return date
    | none => throw (.unrepresentable (.dayOfYear day year))
  else do
    let month ← v.checkedMonthIn
    let day ← v.checkedDayIn
    match Date.ofYmd? year month day with
    | some date => return date
    | none => throw (.unrepresentable (.date year month day))

def seekWeekYear (v : FieldValues) (weekYear : Int) : List Int → Checked Date
  | [] => v.checkedDateIn weekYear
  | year :: years => do
    match ← (v.checkedDateIn year).attempt with
    | some date => if date.weekYear = weekYear then return date else v.seekWeekYear weekYear years
    | none => v.seekWeekYear weekYear years

/-- The calendar years beside a week-based year are left out where they need more than 32 bits. -/
def checkedDateInWeekYear (v : FieldValues) (weekYear : Int) : Checked Date :=
  v.seekWeekYear weekYear ([weekYear, weekYear - 1, weekYear + 1].filter IsYear)

def checkedWeekDate (v : FieldValues) (year : Int) : Checked Date := do
  let weekYear ← match v.get? .weekBasedYear with
    | some weekYear => liftM (checkYear .weekBasedYear weekYear)
    | none => pure year
  let week ← v.checkedWithin .weekOfWeekBasedYear 1 53 1
  let weekday ← v.checkedWithin .dayOfWeek 1 7 1
  match Date.ofWeekDate? weekYear week weekday with
  | some date => return date
  | none => throw (.unrepresentable (.week week weekYear))

def checkedChosenDate (v : FieldValues) : Checked Date := do
  let written ← v.checkedWrittenYear
  let year ← liftM (checkYear .year written)
  let fixesDay := v.contains .dayOfMonth ∨ v.contains .dayOfYear
  if v.contains .weekOfWeekBasedYear ∧ ¬ fixesDay then v.checkedWeekDate year
  else if v.contains .weekBasedYear ∧ ¬ v.contains .year ∧ ¬ v.contains .yearOfEra ∧ fixesDay then
    v.checkedDateInWeekYear year
  else v.checkedDateIn year

def checkedDate (v : FieldValues) : Checked Date := do
  let date ← v.checkedChosenDate
  liftM (v.agree .dayOfWeek date.weekday)
  liftM (v.agree .quarterOfYear date.quarter)
  liftM (v.agree .dayOfYear date.dayOfYear)
  return date

def checkedSplitDay (field : DateField) (nanos : Int) : Checked (Int × Nat) :=
  if 0 ≤ nanos ∧ nanos < 86400000000000 then do
    let second ← unsigned32 (nanos / 1000000000)
    let nano ← unsigned32 (nanos % 1000000000)
    return (second, nano.toNat)
  else throw (.outOfRange field nanos)

def checkedInHalf (v : FieldValues) (hour : Int) : Checked Int := do
  let half ← v.checkedWithin .amPmOfDay 0 1 0
  let noon ← unsigned32 (12 * half)
  unsigned32 (hour + noon)

def checkedHourOfDay (v : FieldValues) : Checked Int :=
  if v.contains .hourOfDay then v.checkedWithin .hourOfDay 0 23 0
  else if v.contains .clockHourOfDay then do return (← v.checkedWithin .clockHourOfDay 1 24 0) % 24
  else if v.contains .hourOfAmPm then do v.checkedInHalf (← v.checkedWithin .hourOfAmPm 0 11 0)
  else if v.contains .clockHourOfAmPm then do
    v.checkedInHalf ((← v.checkedWithin .clockHourOfAmPm 1 12 0) % 12)
  else return 0

def checkedTimeOfDay (v : FieldValues) : Checked (Int × Nat) :=
  match v.get? .nanoOfDay, v.get? .milliOfDay with
  | some nanos, _ => checkedSplitDay .nanoOfDay nanos
  | none, some millis =>
    if millis * 1000000 < Count.least ∨ Count.greatest < millis * 1000000 then
      throw (.outOfRange .milliOfDay millis)
    else checkedSplitDay .milliOfDay (millis * 1000000)
  | none, none => do
    let hour ← v.checkedHourOfDay
    if v.contains .hourOfDay ∨ v.contains .clockHourOfDay then
      liftM (v.agree .amPmOfDay (hour / 12))
    let minute ← v.checkedWithin .minuteOfHour 0 59 0
    let second ← v.checkedWithin .secondOfMinute 0 59 0
    let nano ← v.checkedWithin .nanoOfSecond 0 999999999 0
    return (hour * 3600 + minute * 60 + second, nano.toNat)

def checkedPlace (v : FieldValues) (zone : Zone) : Checked ZonedTime := do
  let date ← v.checkedDate
  let time ← v.checkedTimeOfDay
  match zone.localize? (.ofDate date time.1 time.2) with
  | some t => return t
  | none => throw (.unrepresentable (.wall (.ofDate date time.1 time.2) zone.name))

variable {v : FieldValues} {field : DateField} {low high default n weekYear year : Int}
  {date : Date}

theorem Bounded.nonneg (hv : v.Bounded) (h : v.get? field = some n) (hy : field ≠ .year)
    (hw : field ≠ .weekBasedYear) :
    0 ≤ n := by
  by_contra hlt
  rcases (hv _ _ h).2.2 (Int.not_le.1 hlt) with rfl | rfl
  · exact hy rfl
  · exact hw rfl

theorem gives_writtenYear (hv : v.Bounded) : v.checkedWrittenYear.Gives (.ok v.writtenYear) := by
  rw [checkedWrittenYear, writtenYear]
  cases v.get? .year with
  | some year => exact gives_pure year
  | none =>
    cases hy : v.get? .yearOfEra with
    | none => exact gives_pure _
    | some yearOfEra =>
      have hle := (hv _ _ hy).2.1
      have hnonneg := hv.nonneg hy (by decide) (by decide)
      dsimp only
      split
      · rw [Count.greatest] at hle
        exact gives_int64 (by omega) (by omega)
      · exact gives_pure _

theorem gives_within (v : FieldValues) (field : DateField) (hl : 0 ≤ low) (hh : high ≤ 4294967295)
    (default : Int) :
    (v.checkedWithin field low high default).Gives (v.within field low high default) := by
  rw [checkedWithin, within]
  cases v.get? field with
  | none => exact gives_pure _
  | some value =>
    dsimp only
    split
    · exact gives_unsigned32 (by omega) (by omega)
    · exact gives_throw _

theorem within_cases (h : v.within field low high default = .ok n) :
    low ≤ n ∧ n ≤ high ∨ n = default := by
  unfold within at h
  split at h
  · cases h
    exact .inr rfl
  · split at h
    · cases h
      rename_i hbounds
      exact .inl hbounds
    · cases h

theorem gives_monthIn (v : FieldValues) : v.checkedMonthIn.Gives v.monthIn := by
  rw [checkedMonthIn, monthIn]
  split
  · exact gives_within v _ (by decide) (by decide) 1
  · refine (gives_within v _ (by decide) (by decide) 1).bind fun quarter hquarter ↦ ?_
    have hbounds := within_cases hquarter
    refine (gives_unsigned32 (by omega) (by omega)).bind_ok ?_
    refine (gives_unsigned32 (by omega) (by omega)).bind_ok ?_
    exact gives_unsigned32 (by omega) (by omega)

theorem gives_dayIn (v : FieldValues) : v.checkedDayIn.Gives v.dayIn := by
  rw [checkedDayIn, dayIn]
  split
  · exact gives_within v _ (by decide) (by decide) 1
  · split
    · refine (gives_within v _ (by decide) (by decide) 1).bind fun week hweek ↦ ?_
      refine (gives_within v _ (by decide) (by decide) 1).bind fun day hday ↦ ?_
      have hweeks := within_cases hweek
      have hdays := within_cases hday
      refine (gives_unsigned32 (by omega) (by omega)).bind_ok ?_
      refine (gives_unsigned32 (by omega) (by omega)).bind_ok ?_
      exact gives_unsigned32 (by omega) (by omega)
    · exact gives_pure _

theorem gives_dateIn (v : FieldValues) (year : Int) :
    (v.checkedDateIn year).Gives (v.dateIn year) := by
  rw [checkedDateIn, dateIn]
  split
  · refine (gives_within v _ (by decide) (by decide) 1).bind fun day _ ↦ ?_
    cases Date.ofYearDay? year day with
    | some date => exact gives_pure date
    | none => exact gives_throw _
  · refine (gives_monthIn v).bind fun month _ ↦ ?_
    refine (gives_dayIn v).bind fun day _ ↦ ?_
    cases Date.ofYmd? year month day with
    | some date => exact gives_pure date
    | none => exact gives_throw _

theorem gives_seekWeekYear (v : FieldValues) (weekYear : Int) (years : List Int) :
    (v.seekWeekYear weekYear years).Gives
      ((years.findSome? (v.dateInWeekYear? weekYear)).elim (v.dateIn weekYear) .ok) := by
  induction years with
  | nil => exact gives_dateIn v weekYear
  | cons year years ih =>
    rw [seekWeekYear, List.findSome?_cons, dateInWeekYear?]
    refine (gives_dateIn v year).attempt.bind_ok ?_
    cases (v.dateIn year).toOption with
    | none => exact ih
    | some date =>
      dsimp only
      rw [Option.filter_some]
      by_cases hw : date.weekYear = weekYear
      · rw [if_pos hw, if_pos (decide_eq_true hw)]
        exact gives_pure date
      · rw [if_neg hw, if_neg (by simpa using hw)]
        exact ih

theorem dateIn_cases (h : v.dateIn year = .ok date) :
    ((v.contains .dayOfYear ∧ ¬ v.contains .monthOfYear ∧ ¬ v.contains .dayOfMonth) ∧
      ∃ day, v.within .dayOfYear 1 366 1 = .ok day ∧ Date.ofYearDay? year day = some date) ∨
    (¬ (v.contains .dayOfYear ∧ ¬ v.contains .monthOfYear ∧ ¬ v.contains .dayOfMonth) ∧
      ∃ month day, v.monthIn = .ok month ∧ v.dayIn = .ok day ∧
      Date.ofYmd? year month day = some date) := by
  unfold dateIn at h
  split at h
  · rename_i hby
    obtain ⟨day, hday, h⟩ := exists_of_bind_eq_ok h
    cases hfound : Date.ofYearDay? year day with
    | none => rw [hfound] at h; cases h
    | some found =>
      rw [hfound] at h
      cases h
      exact .inl ⟨hby, day, hday, hfound⟩
  · rename_i hby
    obtain ⟨month, hmonth, h⟩ := exists_of_bind_eq_ok h
    obtain ⟨day, hday, h⟩ := exists_of_bind_eq_ok h
    cases hfound : Date.ofYmd? year month day with
    | none => rw [hfound] at h; cases h
    | some found =>
      rw [hfound] at h
      cases h
      exact .inr ⟨hby, month, day, hmonth, hday, hfound⟩

theorem inCalendar_of_dateIn (h : v.dateIn year = .ok date) : date.InCalendar := by
  rcases dateIn_cases h with ⟨-, day, -, hfound⟩ | ⟨-, month, day, -, -, hfound⟩
  · exact Date.inCalendar_of_ofYearDay? hfound
  · exact Date.inCalendar_of_ofYmd? hfound

/-- A date in a week-based year is in the calendar, so the years beside it need no more than 32
bits. -/
theorem weekYear_bounds_of_dateInWeekYear? (h : v.dateInWeekYear? weekYear year = some date) :
    -262144 ≤ weekYear ∧ weekYear ≤ 262143 := by
  obtain ⟨hdate, hweek⟩ := Option.filter_eq_some_iff.1 h
  have hc : date.InCalendar := by
    cases hin : v.dateIn year with
    | error e => rw [hin] at hdate; cases hdate
    | ok found =>
      rw [hin] at hdate
      cases hdate
      exact inCalendar_of_dateIn hin
  have hyear := Date.inCalendar_iff_year.1 hc
  have hnear := Date.weekYear_near date
  have hweek : date.weekYear = weekYear := by simpa using hweek
  simp only [Date.minYear, Date.maxYear] at hyear
  omega

theorem gives_dateInWeekYear (v : FieldValues) (weekYear : Int) :
    (v.checkedDateInWeekYear weekYear).Gives (v.dateInWeekYear weekYear) := by
  have hmodel : v.dateInWeekYear weekYear = ([weekYear, weekYear - 1, weekYear + 1].findSome?
      (v.dateInWeekYear? weekYear)).elim (v.dateIn weekYear) .ok := by
    rw [dateInWeekYear]
    cases [weekYear, weekYear - 1, weekYear + 1].findSome? (v.dateInWeekYear? weekYear) <;> rfl
  have hseek := gives_seekWeekYear v weekYear ([weekYear, weekYear - 1, weekYear + 1].filter IsYear)
  rw [checkedDateInWeekYear, hmodel]
  by_cases hw : -262144 ≤ weekYear ∧ weekYear ≤ 262143
  · have hall : [weekYear, weekYear - 1, weekYear + 1].filter IsYear =
        [weekYear, weekYear - 1, weekYear + 1] := by
      rw [List.filter_eq_self]
      simp only [List.mem_cons, List.not_mem_nil, or_false, decide_eq_true_eq]
      rintro year (rfl | rfl | rfl) <;> exact ⟨by omega, by omega⟩
    rwa [hall] at hseek ⊢
  · have hnone (years : List Int) : years.findSome? (v.dateInWeekYear? weekYear) = none := by
      rw [List.findSome?_eq_none_iff]
      intro year _
      rw [Option.eq_none_iff_forall_ne_some]
      exact fun date hdate ↦ hw (weekYear_bounds_of_dateInWeekYear? hdate)
    rwa [hnone] at hseek ⊢

theorem gives_weekDate (v : FieldValues) (year : Int) :
    (v.checkedWeekDate year).Gives (v.weekDate year) := by
  rw [checkedWeekDate, weekDate]
  cases v.get? .weekBasedYear
  case' none => refine (gives_pure year).bind fun weekYear _ ↦ ?_
  case' some written =>
    refine (gives_lift (checkYear .weekBasedYear written)).bind fun weekYear _ ↦ ?_
  all_goals
    refine (gives_within v _ (by decide) (by decide) 1).bind fun week _ ↦ ?_
    refine (gives_within v _ (by decide) (by decide) 1).bind fun weekday _ ↦ ?_
    cases Date.ofWeekDate? weekYear week weekday with
    | some date => exact gives_pure date
    | none => exact gives_throw _

theorem gives_chosenDate (hv : v.Bounded) : v.checkedChosenDate.Gives v.chosenDate := by
  rw [checkedChosenDate, chosenDate]
  refine (gives_writtenYear hv).bind_ok ?_
  refine (gives_lift _).bind fun year _ ↦ ?_
  dsimp only
  split
  · exact gives_weekDate v year
  · split
    · exact gives_dateInWeekYear v year
    · exact gives_dateIn v year

theorem gives_date (hv : v.Bounded) : v.checkedDate.Gives v.date := by
  rw [checkedDate, date]
  refine (gives_chosenDate hv).bind fun date _ ↦ ?_
  refine (gives_lift _).bind fun _ _ ↦ ?_
  refine (gives_lift _).bind fun _ _ ↦ ?_
  exact (gives_lift _).bind fun _ _ ↦ gives_pure date

theorem gives_splitDay (field : DateField) (nanos : Int) :
    (checkedSplitDay field nanos).Gives (splitDay field nanos) := by
  rw [checkedSplitDay, splitDay]
  split
  · refine (gives_unsigned32 (by omega) (by omega)).bind_ok ?_
    exact (gives_unsigned32 (by omega) (by omega)).bind_ok (gives_pure _)
  · exact gives_throw _

theorem gives_inHalf (v : FieldValues) {hour : Int} (hl : 0 ≤ hour) (hg : hour ≤ 11) :
    (v.checkedInHalf hour).Gives (v.within .amPmOfDay 0 1 0 >>=
      fun half ↦ pure (hour + 12 * half)) := by
  refine (gives_within v _ (by decide) (by decide) 0).bind fun half hhalf ↦ ?_
  have hbounds := within_cases hhalf
  refine (gives_unsigned32 (by omega) (by omega)).bind_ok ?_
  exact gives_unsigned32 (by omega) (by omega)

theorem gives_hourOfDay (v : FieldValues) : v.checkedHourOfDay.Gives v.hourOfDay := by
  rw [checkedHourOfDay, hourOfDay]
  split
  · exact gives_within v _ (by decide) (by decide) 0
  split
  · exact (gives_within v _ (by decide) (by decide) 0).bind fun hour _ ↦ gives_pure _
  split
  · refine (gives_within v _ (by decide) (by decide) 0).bind fun hour hhour ↦ ?_
    have hbounds := within_cases hhour
    exact gives_inHalf v (by omega) (by omega)
  split
  · refine (gives_within v _ (by decide) (by decide) 0).bind fun hour _ ↦ ?_
    exact gives_inHalf v (by omega) (by omega)
  · exact gives_pure 0

theorem gives_timeOfDay (hv : v.Bounded) : v.checkedTimeOfDay.Gives v.timeOfDay := by
  rw [checkedTimeOfDay, timeOfDay]
  cases v.get? .nanoOfDay with
  | some nanos => exact gives_splitDay _ nanos
  | none =>
    cases hm : v.get? .milliOfDay with
    | some millis =>
      have hnonneg := hv.nonneg hm (by decide) (by decide)
      have hleast : ¬ millis * 1000000 < Count.least := by
        simp only [Count.least]
        omega
      dsimp only
      simp only [hleast, false_or]
      split
      · exact gives_throw _
      · exact gives_splitDay _ _
    | none =>
      refine (gives_hourOfDay v).bind fun hour _ ↦ ?_
      dsimp only
      split
      case' isTrue => refine (gives_lift _).bind fun _ _ ↦ ?_
      all_goals
        refine (gives_within v _ (by decide) (by decide) 0).bind fun minute _ ↦ ?_
        refine (gives_within v _ (by decide) (by decide) 0).bind fun second _ ↦ ?_
        exact (gives_within v _ (by decide) (by decide) 0).bind fun nano _ ↦ gives_pure _

theorem gives_place (hv : v.Bounded) (zone : Zone) :
    (v.checkedPlace zone).Gives (v.place zone) := by
  rw [checkedPlace, place, reading, bind_assoc]
  refine (gives_date hv).bind fun date _ ↦ ?_
  rw [bind_assoc]
  refine (gives_timeOfDay hv).bind fun time _ ↦ ?_
  change Gives _ (match zone.localize? (.ofDate date time.1 time.2) with
    | some t => .ok t
    | none => .error (.unrepresentable (.wall (.ofDate date time.1 time.2) zone.name)))
  cases zone.localize? (.ofDate date time.1 time.2) with
  | some t => exact gives_pure t
  | none => exact gives_throw _

end FieldValues

namespace Piece

variable {piece : Piece} {pieces : List Piece} {field : DateField} {n : Int} {owed position : Nat}
  {text : List Char} {found : Match} {v w : FieldValues}

theorem holds_of_read (hb : piece.Bounded) (h : piece.read owed position text = .ok found)
    (hv : found.value = some (field, n)) : field.Holds n := by
  cases piece with
  | literal expected =>
    simp only [read] at h
    split at h
    · cases h
    · cases h
      cases hv
  | number letter least most =>
    simp only [read, readNumber] at h
    split at h
    · cases h
    · rename_i sign unsigned hsign
      split at h
      · cases h
      · split at h
        · cases h
        · rename_i hsmall
          cases h
          cases hv
          have hcases := (splitSign?_eq_some hsign).2
          rw [Count.greatest] at hsmall
          split
          · rename_i hminus
            have hsigned : letter.isSigned := by
              rcases hcases with rfl | ⟨hs, -⟩ | ⟨hs, -⟩
              · cases hminus
              · exact hs
              · exact hs
            refine ⟨by rw [Count.least]; omega, by rw [Count.greatest]; omega, fun _ ↦ ?_⟩
            have hletter : letter = .weekBasedYear ∨ letter = .year := by
              simpa [Letter.isSigned] using hsigned
            rcases hletter with rfl | rfl
            · exact .inr rfl
            · exact .inl rfl
          · exact DateField.holds_of_nonneg (by omega) (by omega) _
  | shortYear letter =>
    simp only [read] at h
    split at h
    · cases h
    · rename_i digits rest hdigits
      cases h
      cases hv
      obtain ⟨-, hd, -, hlen⟩ := splitDigits?_eq_some hdigits
      have hlt := value_lt hd
      have hle : 10 ^ digits.length ≤ 10 ^ 2 := Nat.pow_le_pow_right (by decide) (by omega)
      exact DateField.holds_of_nonneg (by omega) (by omega) _
  | fraction width =>
    simp only [read] at h
    split at h
    · cases h
    · rename_i hrun
      cases h
      cases hv
      have hlt := value_rightpad_lt hb (Nat.not_lt.1 hrun)
      exact DateField.holds_of_nonneg (by omega) (by omega) _
  | name letter names first =>
    simp only [read] at h
    split at h
    · cases h
    · rename_i v spelled rest hname
      cases h
      cases hv
      obtain ⟨candidate, hmem, -, -, rfl⟩ := splitName?_eq_some hname
      obtain ⟨hfirst, hlast⟩ := hb
      have hidx := List.idxOf_lt_length_of_mem hmem
      exact DateField.holds_of_nonneg (by omega) (by omega) _

theorem bounded_of_readAll (hb : ∀ piece ∈ pieces, piece.Bounded) (hv : v.Bounded)
    (h : readAll pieces position text v = .ok w) : w.Bounded := by
  induction pieces generalizing position text v with
  | nil =>
    cases text with
    | nil =>
      cases h
      exact hv
    | cons c cs => cases h
  | cons piece pieces ih =>
    obtain ⟨found, mid, hread, hgather, h⟩ := exists_of_readAll_cons h
    refine ih (fun other ho ↦ hb other (List.mem_cons_of_mem _ ho)) (fun field n hn ↦ ?_) h
    rcases (get?_gather hgather field n).1 hn with hbefore | hfound
    · exact hv field n hbefore
    · exact holds_of_read (hb piece List.mem_cons_self) hread (Option.mem_toList.1 hfound)

end Piece

namespace Format

/-- Reading a text with a compiled pattern and placing the values found never breaks down: all
slices lie between characters, all numbers fit their width, and so does the position of an error. -/
theorem gives_read_and_place {pattern : String} {f : Format} (hf : compile pattern = .ok f)
    (text : String) :
    (f.readAt text).Gives (f.read text) ∧ (∀ e, f.read text = .error e → e.LiesIn text) ∧
      ∀ values, f.read text = .ok values →
      ∀ zone, (values.checkedPlace zone).Gives (values.place zone) := by
  refine ⟨gives_readAt hf text, fun e he ↦ ?_, fun values hvalues zone ↦ ?_⟩
  · exact Piece.liesIn_of_readAll (Text.stands_start text) he
  · refine FieldValues.gives_place ?_ zone
    exact Piece.bounded_of_readAll (fun _ ↦ bounded_of_compile hf) (fun _ _ h ↦ by cases h) hvalues

theorem read_and_place_before_christ :
    ∃ f, compile "y年G" = .ok f ∧ ((f.readAt "44年BC月").Gives (.error (.trailingText 7 "月")) ∧
      ParseError.LiesIn "44年BC月" (.trailingText 7 "月")) ∧
    ∃ values, f.read "44年BC" = .ok values ∧ values.writtenYear = -43 ∧
      ∀ zone, (values.checkedPlace zone).Gives (values.place zone) := by
  have hf : compile "y年G" = .ok ⟨"y年G",
      [.number .yearOfEra 1 10, .literal ['年'], .name .era Letter.shortEras 0]⟩ := by
    decide +kernel
  have hleft : Format.read ⟨"y年G",
      [.number .yearOfEra 1 10, .literal ['年'], .name .era Letter.shortEras 0]⟩
      "44年BC月" = .error (.trailingText 7 "月") := by decide +kernel
  have hread : Format.read ⟨"y年G",
      [.number .yearOfEra 1 10, .literal ['年'], .name .era Letter.shortEras 0]⟩
      "44年BC" = .ok ⟨[(.era, 0), (.yearOfEra, 44)]⟩ := by decide +kernel
  obtain ⟨hgives, herror, -⟩ := gives_read_and_place hf "44年BC月"
  rw [hleft] at hgives
  exact ⟨_, hf, ⟨hgives, herror _ hleft⟩, _, hread, by decide,
    (gives_read_and_place hf "44年BC").2.2 _ hread⟩

end Format

end Almanac
