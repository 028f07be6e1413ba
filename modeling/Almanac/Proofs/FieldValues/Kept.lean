import Almanac.Proofs.FieldValues.TimeOfDay
import Almanac.Proofs.FieldValues.WeekYear
import Almanac.Proofs.ZonedTime.Period

namespace Almanac

namespace FieldValues

variable {v : FieldValues} {field : DateField}
  {low high default n value found year weekYear hour second : Int} {nano : Nat}
  {date : Date} {t : ZonedTime}

/-- The time of day is written by hours and parts of hours, and not as one count from midnight. -/
def WritesClock (v : FieldValues) : Prop := v.get? .nanoOfDay = none ∧ v.get? .milliOfDay = none

/-- Whether an instant keeps the value of a field. -/
def Keeps (v : FieldValues) : DateField → Prop
  | .dayOfMonth | .dayOfWeek | .dayOfYear | .quarterOfYear | .nanoOfDay => True
  | .milliOfDay => v.get? .nanoOfDay = none
  | .hourOfDay | .minuteOfHour | .secondOfMinute | .nanoOfSecond => v.WritesClock
  | .clockHourOfDay => v.WritesClock ∧ ¬ v.contains .hourOfDay
  | .amPmOfDay => v.WritesClock ∧ (v.contains .hourOfDay ∨ v.contains .clockHourOfDay ∨
      v.contains .hourOfAmPm ∨ v.contains .clockHourOfAmPm)
  | _ => False

theorem contains_of_get? (h : v.get? field = some value) : v.contains field := by
  rw [contains, h]
  rfl

theorem eq_of_within (h : v.within field low high default = .ok n)
    (hv : v.get? field = some value) :
    n = value ∧ low ≤ value ∧ value ≤ high := by
  rw [within, hv] at h
  dsimp only at h
  split at h
  · rename_i hbounds
    exact ⟨(Except.ok.inj h).symm, hbounds⟩
  · cases h

theorem eq_of_agree (h : v.agree field found = .ok ()) (hv : v.get? field = some value) :
    value = found := by
  rw [agree, hv] at h
  dsimp only at h
  split at h
  · assumption
  · cases h

theorem day_of_dateIn (h : v.dateIn year = .ok date) (hv : v.get? .dayOfMonth = some value) :
    date.day = value := by
  have hcontains := contains_of_get? hv
  rcases dateIn_cases h with ⟨hby, -⟩ | ⟨-, month, day, -, hday, hfound⟩
  · exact absurd hcontains hby.2.2
  · rw [dayIn, if_pos hcontains] at hday
    rw [(Date.year_month_day_of_ofYmd? hfound).2.2, (eq_of_within hday hv).1]

theorem exists_dateIn (h : v.dateInWeekYear weekYear = .ok date) :
    ∃ year, v.dateIn year = .ok date := by
  unfold dateInWeekYear at h
  split at h
  · rename_i found hsearch
    obtain rfl := Except.ok.inj h
    obtain ⟨year, -, hyear⟩ := List.exists_of_findSome?_eq_some hsearch
    exact ⟨year, (dateInWeekYear?_eq_some_iff.1 hyear).1⟩
  · exact ⟨weekYear, h⟩

theorem day_of_chosenDate (h : v.chosenDate = .ok date) (hv : v.get? .dayOfMonth = some value) :
    date.day = value := by
  obtain ⟨year, -, h⟩ := exists_of_bind_eq_ok h
  dsimp only at h
  split at h
  · rename_i hweek
    exact absurd (.inl (contains_of_get? hv)) hweek.2
  · split at h
    · obtain ⟨year, hin⟩ := exists_dateIn h
      exact day_of_dateIn hin hv
    · exact day_of_dateIn h hv

theorem confirmed_of_date (h : v.date = .ok date) :
    v.chosenDate = .ok date ∧ v.agree .dayOfWeek date.weekday = .ok () ∧
    v.agree .quarterOfYear date.quarter = .ok () ∧
    v.agree .dayOfYear date.dayOfYear = .ok () := by
  obtain ⟨chosen, hchosen, h⟩ := exists_of_bind_eq_ok h
  obtain ⟨_, hweekday, h⟩ := exists_of_bind_eq_ok h
  obtain ⟨_, hquarter, h⟩ := exists_of_bind_eq_ok h
  obtain ⟨_, hday, h⟩ := exists_of_bind_eq_ok h
  obtain rfl := Except.ok.inj h
  exact ⟨hchosen, hweekday, hquarter, hday⟩

theorem hourOfDay_cases (h : v.hourOfDay = .ok hour) :
    (v.contains .hourOfDay ∧ v.within .hourOfDay 0 23 0 = .ok hour) ∨
    (¬ v.contains .hourOfDay ∧ v.contains .clockHourOfDay ∧
      ∃ n, v.within .clockHourOfDay 1 24 0 = .ok n ∧ hour = n % 24) ∨
    (¬ v.contains .hourOfDay ∧ ¬ v.contains .clockHourOfDay ∧
      ∃ inHalf half, 0 ≤ inHalf ∧ inHalf ≤ 11 ∧ v.within .amPmOfDay 0 1 0 = .ok half ∧
      hour = inHalf + 12 * half) ∨
    (¬ v.contains .hourOfDay ∧ ¬ v.contains .clockHourOfDay ∧ ¬ v.contains .hourOfAmPm ∧
      ¬ v.contains .clockHourOfAmPm ∧ hour = 0) := by
  unfold hourOfDay at h
  split at h
  · rename_i hhour
    exact .inl ⟨hhour, h⟩
  rename_i hhour
  split at h
  · rename_i hclock
    obtain ⟨n, hn, h⟩ := exists_of_bind_eq_ok h
    exact .inr (.inl ⟨hhour, hclock, n, hn, (Except.ok.inj h).symm⟩)
  rename_i hclock
  split at h
  · obtain ⟨inHalf, hin, h⟩ := exists_of_bind_eq_ok h
    obtain ⟨half, hhalf, h⟩ := exists_of_bind_eq_ok h
    have hbounds := within_cases hin
    exact .inr (.inr
      (.inl ⟨hhour, hclock, inHalf, half, by omega, by omega, hhalf, (Except.ok.inj h).symm⟩))
  rename_i hin
  split at h
  · obtain ⟨n, hn, h⟩ := exists_of_bind_eq_ok h
    obtain ⟨half, hhalf, h⟩ := exists_of_bind_eq_ok h
    exact .inr (.inr
      (.inl ⟨hhour, hclock, n % 12, half, by omega, by omega, hhalf, (Except.ok.inj h).symm⟩))
  · rename_i hin'
    exact .inr (.inr (.inr ⟨hhour, hclock, hin, hin', (Except.ok.inj h).symm⟩))

theorem hour_bounds_of_hourOfDay (h : v.hourOfDay = .ok hour) : 0 ≤ hour ∧ hour ≤ 23 := by
  rcases hourOfDay_cases h with ⟨-, hn⟩ | ⟨-, -, n, -, rfl⟩ |
    ⟨-, -, inHalf, half, hl, hu, hhalf, rfl⟩ |
    ⟨-, -, -, -, rfl⟩
  · have hbounds := within_cases hn
    omega
  · omega
  · have hbounds := within_cases hhalf
    omega
  · omega

/-- The parts of a time of day written by the clock. -/
theorem exists_of_timeOfDay (hc : v.WritesClock) (h : v.timeOfDay = .ok (second, nano)) :
    ∃ hour minute inMinute fraction, v.hourOfDay = .ok hour ∧
      (v.contains .hourOfDay ∨ v.contains .clockHourOfDay →
        v.agree .amPmOfDay (hour / 12) = .ok ()) ∧
      v.within .minuteOfHour 0 59 0 = .ok minute ∧ v.within .secondOfMinute 0 59 0 = .ok inMinute ∧
      v.within .nanoOfSecond 0 999999999 0 = .ok fraction ∧
      second = hour * 3600 + minute * 60 + inMinute ∧ nano = fraction.toNat := by
  rw [timeOfDay, hc.1, hc.2] at h
  obtain ⟨hour, hhour, h⟩ := exists_of_bind_eq_ok h
  dsimp only at h
  split at h
  case' isTrue hshown => obtain ⟨_, hagree, h⟩ := exists_of_bind_eq_ok h
  all_goals
    obtain ⟨minute, hminute, h⟩ := exists_of_bind_eq_ok h
    obtain ⟨inMinute, hsecond, h⟩ := exists_of_bind_eq_ok h
    obtain ⟨fraction, hfraction, h⟩ := exists_of_bind_eq_ok h
    obtain ⟨hs, hn⟩ := Prod.mk.inj (Except.ok.inj h)
    refine ⟨hour, minute, inMinute, fraction, hhour, fun hshown' ↦ ?_, hminute, hsecond, hfraction,
      hs.symm, hn.symm⟩
  · exact hagree
  · exact absurd hshown' ‹_›

theorem of_splitDay (h : splitDay field n = .ok (second, nano)) :
    0 ≤ second ∧ second < 86400 ∧ nano ≤ 999999999 ∧ second * 1000000000 + nano = n := by
  unfold splitDay at h
  split at h
  · obtain ⟨rfl, rfl⟩ := Prod.mk.inj (Except.ok.inj h)
    omega
  · cases h

theorem bounds_of_timeOfDay (h : v.timeOfDay = .ok (second, nano)) :
    0 ≤ second ∧ second < 86400 ∧ nano ≤ 999999999 := by
  by_cases hc : v.WritesClock
  · obtain ⟨hour, minute, inMinute, fraction, hhour, -, hminute, hsecond, hfraction, rfl, rfl⟩ :=
      exists_of_timeOfDay hc h
    have hbounds := hour_bounds_of_hourOfDay hhour
    have hm := within_cases hminute
    have hs := within_cases hsecond
    have hf := within_cases hfraction
    omega
  · unfold timeOfDay at h
    split at h
    · obtain ⟨hl, hu, hn, -⟩ := of_splitDay h
      exact ⟨hl, hu, hn⟩
    · split at h
      · cases h
      · obtain ⟨hl, hu, hn, -⟩ := of_splitDay h
        exact ⟨hl, hu, hn⟩
    · exact absurd ⟨‹_›, ‹_›⟩ hc

theorem exists_of_place_utc (h : v.place .utc = .ok t) :
    ∃ date second nano, v.date = .ok date ∧ v.timeOfDay = .ok (second, nano) ∧
    t.wall = .ofDate date second nano := by
  obtain ⟨reading, hreading, h⟩ := exists_of_bind_eq_ok h
  obtain ⟨date, hdate, hreading⟩ := exists_of_bind_eq_ok hreading
  obtain ⟨⟨second, nano⟩, htime, hreading⟩ := exists_of_bind_eq_ok hreading
  obtain rfl := Except.ok.inj hreading
  refine ⟨date, second, nano, hdate, htime, ?_⟩
  rw [Zone.localize?, ZonedTime.utc_attach?] at h
  split at h
  · rename_i placed hplaced
    obtain rfl := Except.ok.inj h
    obtain ⟨-, rfl⟩ := ZonedTime.eq_of_covered? hplaced
    exact ZonedTime.utc_wall _
  · cases h

/-- The fields of a date are kept by every date that is found. -/
theorem value_eq_of_date (h : v.date = .ok date) {r : Reading} (hr : r.date = date)
    (hf : field ∈ [.dayOfMonth, .dayOfWeek, .dayOfYear, .quarterOfYear])
    (hv : v.get? field = some value) :
    field.value r = value := by
  obtain ⟨hchosen, hweekday, hquarter, hday⟩ := confirmed_of_date h
  subst hr
  simp only [List.mem_cons, List.not_mem_nil, or_false] at hf
  rcases hf with rfl | rfl | rfl | rfl
  · exact day_of_chosenDate hchosen hv
  · exact (eq_of_agree hweekday hv).symm
  · exact (eq_of_agree hday hv).symm
  · exact (eq_of_agree hquarter hv).symm

theorem value_eq_of_hourOfDay (h : v.hourOfDay = .ok hour)
    (ha : v.contains .hourOfDay ∨ v.contains .clockHourOfDay →
      v.agree .amPmOfDay (hour / 12) = .ok ()) {r : Reading} (hr : r.hour = hour) :
    (∀ n, v.get? .hourOfDay = some n → DateField.hourOfDay.value r = n) ∧
    (¬ v.contains .hourOfDay →
      ∀ n, v.get? .clockHourOfDay = some n → DateField.clockHourOfDay.value r = n) ∧
    (v.contains .hourOfDay ∨ v.contains .clockHourOfDay ∨ v.contains .hourOfAmPm ∨
      v.contains .clockHourOfAmPm →
      ∀ n, v.get? .amPmOfDay = some n → DateField.amPmOfDay.value r = n) := by
  subst hr
  refine ⟨fun n hn ↦ ?_, fun hno n hn ↦ ?_, fun hany n hn ↦ ?_⟩
  · have hin := contains_of_get? hn
    rcases hourOfDay_cases h with ⟨-, hw⟩ | ⟨hno, -⟩ | ⟨hno, -⟩ | ⟨hno, -⟩
    · exact (eq_of_within hw hn).1
    all_goals exact absurd hin hno
  · have hin := contains_of_get? hn
    rcases hourOfDay_cases h with ⟨hhour, -⟩ | ⟨-, -, m, hw, hhour⟩ | ⟨-, hno, -⟩ | ⟨-, hno, -⟩
    · exact absurd hhour hno
    · obtain ⟨rfl, hl, hu⟩ := eq_of_within hw hn
      change (if r.hour = 0 then 24 else r.hour) = m
      split <;> omega
    all_goals exact absurd hin hno
  · rcases hourOfDay_cases h with ⟨hhour, -⟩ | ⟨-, hclock, -⟩ |
      ⟨-, -, inHalf, half, hl, hu, hw, hhour⟩ |
      ⟨hno, hno', hno'', hno''', -⟩
    · exact (eq_of_agree (ha (.inl hhour)) hn).symm
    · exact (eq_of_agree (ha (.inr hclock)) hn).symm
    · obtain ⟨rfl, -⟩ := eq_of_within hw hn
      change r.hour / 12 = half
      omega
    · rcases hany with hany | hany | hany | hany
      · exact absurd hany hno
      · exact absurd hany hno'
      · exact absurd hany hno''
      · exact absurd hany hno'''

theorem value_eq_of_count (h : v.timeOfDay = .ok (second, nano)) (date : Date) :
    (∀ n, v.get? .nanoOfDay = some n → DateField.nanoOfDay.value (.ofDate date second nano) = n) ∧
    (v.get? .nanoOfDay = none → ∀ n, v.get? .milliOfDay = some n →
      DateField.milliOfDay.value (.ofDate date second nano) = n) := by
  obtain ⟨hl, hu, hn⟩ := bounds_of_timeOfDay h
  have hsecond := @Reading.secondOfDay_ofDate date second nano hl hu
  have hclipped : (Reading.ofDate date second nano).clippedNano = nano := Nat.min_eq_left hn
  refine ⟨fun n hv ↦ ?_, fun hno n hv ↦ ?_⟩
  · rw [timeOfDay, hv] at h
    obtain ⟨-, -, -, hsum⟩ := of_splitDay h
    rw [DateField.value, hsecond, hclipped]
    exact hsum
  · rw [timeOfDay, hno, hv] at h
    dsimp only at h
    split at h
    · cases h
    · obtain ⟨-, -, -, hsum⟩ := of_splitDay h
      rw [DateField.value, hsecond, hclipped]
      omega

theorem clock_ofDate {minute inMinute : Int} (hh : 0 ≤ hour ∧ hour ≤ 23)
    (hm : 0 ≤ minute ∧ minute ≤ 59) (hs : 0 ≤ inMinute ∧ inMinute ≤ 59) (date : Date) (nano : Nat) :
    (Reading.ofDate date (hour * 3600 + minute * 60 + inMinute) nano).hour = hour ∧
      (Reading.ofDate date (hour * 3600 + minute * 60 + inMinute) nano).minute = minute ∧
      (Reading.ofDate date (hour * 3600 + minute * 60 + inMinute) nano).secondOfMinute =
      inMinute := by
  have hsecond := @Reading.secondOfDay_ofDate date (hour * 3600 + minute * 60 + inMinute) nano
    (by omega) (by omega)
  rw [Reading.hour, Reading.minute, Reading.secondOfMinute, hsecond]
  omega

theorem exists_hour_of_timeOfDay (hc : v.WritesClock) (h : v.timeOfDay = .ok (second, nano))
    (date : Date) :
    (∃ hour, v.hourOfDay = .ok hour ∧ (Reading.ofDate date second nano).hour = hour ∧
      (v.contains .hourOfDay ∨ v.contains .clockHourOfDay →
        v.agree .amPmOfDay (hour / 12) = .ok ())) ∧
    ∀ field ∈ [.minuteOfHour, .secondOfMinute, .nanoOfSecond], ∀ n, v.get? field = some n →
      field.value (.ofDate date second nano) = n := by
  obtain ⟨-, -, hnano⟩ := bounds_of_timeOfDay h
  obtain ⟨hour, minute, inMinute, fraction, hhour, hagree, hminute, hsecond, hfraction, rfl, rfl⟩ :=
    exists_of_timeOfDay hc h
  have hm := within_cases hminute
  have hs := within_cases hsecond
  have hf := within_cases hfraction
  have hclipped :
      (Reading.ofDate date (hour * 3600 + minute * 60 + inMinute) fraction.toNat).clippedNano =
      fraction.toNat := Nat.min_eq_left hnano
  obtain ⟨hh, hm, hs⟩ :=
    clock_ofDate (hour_bounds_of_hourOfDay hhour) (by omega : 0 ≤ minute ∧ minute ≤ 59)
      (by omega : 0 ≤ inMinute ∧ inMinute ≤ 59) date fraction.toNat
  refine ⟨⟨hour, hhour, hh, hagree⟩, fun field hfield n hn ↦ ?_⟩
  simp only [List.mem_cons, List.not_mem_nil, or_false] at hfield
  rcases hfield with rfl | rfl | rfl
  · exact hm.trans (eq_of_within hminute hn).1
  · exact hs.trans (eq_of_within hsecond hn).1
  · rw [DateField.value, hclipped, ← (eq_of_within hfraction hn).1]
    omega

/-- An instant placed in UTC shows the fields that were written and that it keeps. -/
theorem value_kept_in_utc (h : v.place .utc = .ok t) (hk : v.Keeps field)
    (hv : v.get? field = some value) :
    field.value t.wall = value := by
  obtain ⟨date, second, nano, hdate, htime, hwall⟩ := exists_of_place_utc h
  obtain ⟨hl, hu, -⟩ := bounds_of_timeOfDay htime
  rw [hwall]
  have hday : (Reading.ofDate date second nano).date = date := Reading.date_ofDate hl hu
  cases field with
  | dayOfMonth | dayOfWeek | dayOfYear | quarterOfYear =>
    exact value_eq_of_date hdate hday (by decide) hv
  | nanoOfDay => exact (value_eq_of_count htime date).1 value hv
  | milliOfDay => exact (value_eq_of_count htime date).2 hk value hv
  | hourOfDay =>
    obtain ⟨⟨hour, hhour, hshown, hagree⟩, -⟩ := exists_hour_of_timeOfDay hk htime date
    exact (value_eq_of_hourOfDay hhour hagree hshown).1 value hv
  | clockHourOfDay =>
    obtain ⟨⟨hour, hhour, hshown, hagree⟩, -⟩ := exists_hour_of_timeOfDay hk.1 htime date
    exact (value_eq_of_hourOfDay hhour hagree hshown).2.1 hk.2 value hv
  | amPmOfDay =>
    obtain ⟨⟨hour, hhour, hshown, hagree⟩, -⟩ := exists_hour_of_timeOfDay hk.1 htime date
    exact (value_eq_of_hourOfDay hhour hagree hshown).2.2 hk.2 value hv
  | minuteOfHour | secondOfMinute | nanoOfSecond =>
    exact (exists_hour_of_timeOfDay hk htime date).2 _ (by decide) value hv
  | _ => exact hk.elim

theorem value_kept_of_2025_12_30 :
    let f : Format :=
      ⟨"YYYY.MM.dd E kk a m",
        [.number .weekBasedYear 4 10, .literal ['.'], .number .monthOfYear 2 2, .literal ['.'],
          .number .dayOfMonth 2 2, .literal [' '], .name .dayOfWeek Letter.shortDays 1,
          .literal [' '], .number .clockHourOfDay 2 2, .literal [' '],
          .name .amPmOfDay Letter.halfDays 0, .literal [' '], .number .minuteOfHour 1 2]⟩
    let t : ZonedTime := ⟨.utc, .ofDate (.ofYmd 2024 12 30) 300 0⟩
    ∃ v, Format.compile "YYYY.MM.dd E kk a m" = .ok f ∧ f.read "2025.12.30 Mon 24 AM 5" = .ok v ∧
      v.place .utc = .ok t ∧ DateField.dayOfMonth.value t.wall = 30 ∧
      DateField.dayOfWeek.value t.wall = 1 ∧
      DateField.clockHourOfDay.value t.wall = 24 ∧ DateField.amPmOfDay.value t.wall = 0 ∧
      DateField.minuteOfHour.value t.wall = 5 := by
  intro f t
  let v : FieldValues :=
    ⟨[(.minuteOfHour, 5), (.amPmOfDay, 0), (.clockHourOfDay, 24), (.dayOfWeek, 1),
      (.dayOfMonth, 30), (.monthOfYear, 12), (.weekBasedYear, 2025)]⟩
  have h : v.place .utc = .ok t := by decide +kernel
  have hc : v.WritesClock := ⟨rfl, rfl⟩
  exact ⟨v, by decide +kernel, by decide +kernel, h, value_kept_in_utc h trivial rfl,
    value_kept_in_utc h trivial rfl,
    value_kept_in_utc h ⟨hc, by decide⟩ rfl, value_kept_in_utc h ⟨hc, by decide⟩ rfl,
    value_kept_in_utc h hc rfl⟩

end FieldValues

end Almanac
