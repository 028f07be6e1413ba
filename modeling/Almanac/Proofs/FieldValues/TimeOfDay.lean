import Almanac.Proofs.FieldValues.Shows
import Almanac.Proofs.ZonedTime.Floor

namespace Almanac

inductive HourFields : List DateField → Prop
  | hourOfDay : HourFields [.hourOfDay]
  | clockHourOfDay : HourFields [.clockHourOfDay]
  | hourOfAmPm : HourFields [.hourOfAmPm, .amPmOfDay]
  | clockHourOfAmPm : HourFields [.clockHourOfAmPm, .amPmOfDay]

/-- The ways to write a stretch of the day, with its unit. -/
inductive TimeFields : List DateField → CalendarUnit → Prop
  | hour {hs : List DateField} : HourFields hs → TimeFields hs .hours
  | minute {hs : List DateField} : HourFields hs → TimeFields (.minuteOfHour :: hs) .minutes
  | second {hs : List DateField} :
      HourFields hs → TimeFields (.secondOfMinute :: .minuteOfHour :: hs) .seconds
  | nano {hs : List DateField} :
      HourFields hs → TimeFields (.nanoOfSecond :: .secondOfMinute :: .minuteOfHour :: hs) .nanos
  | milliOfDay : TimeFields [.milliOfDay] .millis
  | nanoOfDay : TimeFields [.nanoOfDay] .nanos

namespace FieldValues

variable {v : FieldValues} {fields : List DateField} {r : Reading} {date : Date}
  {hour minute second nano : Int}

theorem timeOfDay_eq (hd : v.get? .nanoOfDay = none) (hm : v.get? .milliOfDay = none)
    (hhour : v.hourOfDay = .ok hour)
    (ha : v.contains .hourOfDay ∨ v.contains .clockHourOfDay →
      v.agree .amPmOfDay (hour / 12) = .ok ())
    (hminute : v.within .minuteOfHour 0 59 0 = .ok minute)
    (hsecond : v.within .secondOfMinute 0 59 0 = .ok second)
    (hnano : v.within .nanoOfSecond 0 999999999 0 = .ok nano) :
    v.timeOfDay = .ok (hour * 3600 + minute * 60 + second, nano.toNat) := by
  rw [timeOfDay, hd, hm, hhour, hminute, hsecond, hnano]
  change (if v.contains .hourOfDay ∨ v.contains .clockHourOfDay then
      v.agree .amPmOfDay (hour / 12) >>=
        fun _ ↦ .ok (hour * 3600 + minute * 60 + second, nano.toNat)
    else .ok (hour * 3600 + minute * 60 + second, nano.toNat)) = _
  split
  · rename_i hshown
    rw [ha hshown]
    rfl
  · rfl

theorem Shows.timeOfDay_of_amPmOfDay (hv : v.Shows fields r)
    (h : ∀ field : DateField, field.unit.isTimeBased → field ≠ .amPmOfDay → field ∉ fields) :
    v.timeOfDay = .ok (0, 0) := by
  have hno {field : DateField} (hu : field.unit.isTimeBased) (ha : field ≠ .amPmOfDay) :
      v.contains field = false :=
    hv.contains_of_not_mem (h field hu ha)
  have hclock := @hno .hourOfDay rfl (by decide)
  have hclock' := @hno .clockHourOfDay rfl (by decide)
  have hhour : v.hourOfDay = .ok 0 := by
    rw [hourOfDay, hclock, hclock', @hno .hourOfAmPm rfl (by decide),
      @hno .clockHourOfAmPm rfl (by decide)]
    rfl
  have hagree : v.contains .hourOfDay ∨ v.contains .clockHourOfDay →
      v.agree .amPmOfDay (0 / 12) = .ok () := by
    rw [hclock, hclock']
    exact fun hshown ↦ absurd hshown (by decide)
  exact timeOfDay_eq (hv.get?_of_not_mem (h _ rfl (by decide)))
    (hv.get?_of_not_mem (h _ rfl (by decide))) hhour hagree
    (hv.within_of_not_mem (h _ rfl (by decide)) 0 59 0)
    (hv.within_of_not_mem (h _ rfl (by decide)) 0 59 0)
    (hv.within_of_not_mem (h _ rfl (by decide)) 0 999999999 0)

theorem Shows.timeOfDay_of_not_mem (hv : v.Shows fields r)
    (h : ∀ field : DateField, field.unit.isTimeBased → field ∉ fields) : v.timeOfDay = .ok (0, 0) :=
  hv.timeOfDay_of_amPmOfDay fun field hu _ ↦ h field hu

theorem Shows.hourOfDay_eq (hv : v.Shows fields r) {hs : List DateField} (h : HourFields hs)
    (hsub : ∀ field ∈ hs, field ∈ fields)
    (hn : ∀ field ∉ hs, field.unit = .hours → field ∉ fields) :
    v.hourOfDay = .ok r.hour := by
  have hb := r.hour_bounds
  have hhalf := DateField.amPmOfDay_bounds r
  have hin {field : DateField} (hf : field ∈ hs) : v.contains field = true :=
    hv.contains_of_mem (hsub field hf)
  have hno {field : DateField} (hf : field ∉ hs) (hu : field.unit = .hours) :
      ¬ v.contains field = true := by
    rw [hv.contains_of_not_mem (hn field hf hu)]
    decide
  cases h with
  | hourOfDay =>
    rw [hourOfDay, if_pos (hin (by decide))]
    exact hv.within_of_mem (hsub _ (by decide)) 0 hb.1 hb.2
  | clockHourOfDay =>
    have hclock : (DateField.clockHourOfDay.value r) % 24 = r.hour := by
      change (if r.hour = 0 then 24 else r.hour) % 24 = r.hour
      split <;> omega
    have hlow : 1 ≤ DateField.clockHourOfDay.value r ∧ DateField.clockHourOfDay.value r ≤ 24 := by
      change 1 ≤ (if r.hour = 0 then 24 else r.hour) ∧ (if r.hour = 0 then 24 else r.hour) ≤ 24
      split <;> omega
    rw [hourOfDay, if_neg (hno (by decide) rfl), if_pos (hin (by decide)),
      hv.within_of_mem (hsub _ (by decide)) 0 hlow.1 hlow.2]
    exact congrArg Except.ok hclock
  | hourOfAmPm =>
    have hlow : 0 ≤ DateField.hourOfAmPm.value r ∧ DateField.hourOfAmPm.value r ≤ 11 := by
      change 0 ≤ r.hour % 12 ∧ r.hour % 12 ≤ 11
      omega
    rw [hourOfDay, if_neg (hno (by decide) rfl), if_neg (hno (by decide) rfl),
      if_pos (hin (by decide)), hv.within_of_mem (hsub _ (by decide)) 0 hlow.1 hlow.2,
      hv.within_of_mem (hsub .amPmOfDay (by decide)) 0 hhalf.1 hhalf.2]
    change Except.ok (r.hour % 12 + 12 * (r.hour / 12)) = _
    rw [Int.emod_add_mul_ediv]
  | clockHourOfAmPm =>
    have hclock : DateField.clockHourOfAmPm.value r % 12 = r.hour % 12 := by
      change (if r.hour % 12 = 0 then 12 else r.hour % 12) % 12 = r.hour % 12
      split <;> omega
    have hlow : 1 ≤ DateField.clockHourOfAmPm.value r ∧ DateField.clockHourOfAmPm.value r ≤ 12 := by
      change 1 ≤ (if r.hour % 12 = 0 then 12 else r.hour % 12) ∧
        (if r.hour % 12 = 0 then 12 else r.hour % 12) ≤ 12
      split <;> omega
    rw [hourOfDay, if_neg (hno (by decide) rfl), if_neg (hno (by decide) rfl),
      if_neg (hno (by decide) rfl),
      if_pos (hin (by decide)), hv.within_of_mem (hsub _ (by decide)) 0 hlow.1 hlow.2,
      hv.within_of_mem (hsub .amPmOfDay (by decide)) 0 hhalf.1 hhalf.2]
    change Except.ok (DateField.clockHourOfAmPm.value r % 12 + 12 * (r.hour / 12)) = _
    rw [hclock, Int.emod_add_mul_ediv]

theorem Shows.timeOfDay_of_hourFields (hv : v.Shows fields r) {hs ts : List DateField}
    (h : HourFields hs) (hsub : ∀ field ∈ hs, field ∈ fields)
    (hn : ∀ field ∉ ts, field.unit.isTimeBased → field ∉ fields)
    (hts : ∀ field ∈ ts, field ∈ hs ∨
      field ∈ [DateField.minuteOfHour, .secondOfMinute, .nanoOfSecond])
    (hminute : v.within .minuteOfHour 0 59 0 = .ok minute)
    (hsecond : v.within .secondOfMinute 0 59 0 = .ok second)
    (hnano : v.within .nanoOfSecond 0 999999999 0 = .ok nano) :
    v.timeOfDay = .ok (r.hour * 3600 + minute * 60 + second, nano.toNat) := by
  have hno {field : DateField} (hf : field ∉ hs) (hu : field.unit.isTimeBased)
      (hr : field ∉ [DateField.minuteOfHour, .secondOfMinute, .nanoOfSecond]) : field ∉ fields :=
    hn field (fun hm ↦ (hts field hm).elim hf hr) hu
  have hhour : v.hourOfDay = .ok r.hour := by
    have hunit : ∀ field ∈ [DateField.minuteOfHour, .secondOfMinute, .nanoOfSecond],
        field.unit ≠ .hours := by
      decide
    exact hv.hourOfDay_eq h hsub fun field hf hu ↦
      hno hf (by rw [hu]; rfl) fun hm ↦ hunit field hm hu
  exact timeOfDay_eq (hv.get?_of_not_mem (hno (by cases h <;> decide) rfl (by decide)))
    (hv.get?_of_not_mem (hno (by cases h <;> decide) rfl (by decide))) hhour (fun _ ↦ hv.agree rfl)
    hminute hsecond hnano

/-- Fields that write a stretch of the day give its start. -/
theorem Shows.timeOfDay_of_timeFields (hv : v.Shows fields r) {ts : List DateField}
    {unit : CalendarUnit} (h : TimeFields ts unit) (hs : ∀ field ∈ ts, field ∈ fields)
    (hn : ∀ field ∉ ts, field.unit.isTimeBased → field ∉ fields) (hleap : ¬ r.IsLeapSecond) :
    v.timeOfDay = .ok (r.flooredTime unit) := by
  have hclip : r.clippedNano = r.nano := by
    unfold Reading.IsLeapSecond Reading.nanosPerSecond at hleap
    unfold Reading.clippedNano
    omega
  have hsecond := r.secondOfDay_eq
  have hday := r.secondOfDay_bounds
  have hm := r.minute_bounds
  have hs' := r.secondOfMinute_bounds
  have hc := r.clippedNano_le
  have hnano : 0 ≤ DateField.nanoOfSecond.value r ∧ DateField.nanoOfSecond.value r ≤ 999999999 := by
    change (0 : Int) ≤ r.clippedNano ∧ (r.clippedNano : Int) ≤ 999999999
    omega
  have hminute : r.hour * 3600 + r.minute * 60 = r.secondOfDay / 60 * 60 := by
    unfold Reading.hour Reading.minute
    omega
  cases h with
  | hour hh =>
    rw [hv.timeOfDay_of_hourFields hh hs hn (fun _ ↦ .inl)
      (hv.within_of_not_mem (hn _ (by cases hh <;> decide) rfl) 0 59 0)
      (hv.within_of_not_mem (hn _ (by cases hh <;> decide) rfl) 0 59 0)
      (hv.within_of_not_mem (hn _ (by cases hh <;> decide) rfl) 0 999999999 0)]
    simp [Reading.flooredTime, Reading.hour]
  | minute hh =>
    rw [hv.timeOfDay_of_hourFields hh (fun field h ↦ hs field (by simp [h])) hn (by simp; tauto)
      (hv.within_of_mem (hs _ (by simp)) 0 hm.1 hm.2)
      (hv.within_of_not_mem (hn _ (by cases hh <;> decide) rfl) 0 59 0)
      (hv.within_of_not_mem (hn _ (by cases hh <;> decide) rfl) 0 999999999 0)]
    simp [Reading.flooredTime, DateField.value, hminute]
  | second hh =>
    rw [hv.timeOfDay_of_hourFields hh (fun field h ↦ hs field (by simp [h])) hn (by simp; tauto)
      (hv.within_of_mem (hs _ (by simp)) 0 hm.1 hm.2)
      (hv.within_of_mem (hs _ (by simp)) 0 hs'.1 hs'.2)
      (hv.within_of_not_mem (hn _ (by cases hh <;> decide) rfl) 0 999999999 0)]
    simp [Reading.flooredTime, DateField.value, hsecond]
  | nano hh =>
    rw [hv.timeOfDay_of_hourFields hh (fun field h ↦ hs field (by simp [h])) hn (by simp; tauto)
      (hv.within_of_mem (hs _ (by simp)) 0 hm.1 hm.2)
      (hv.within_of_mem (hs _ (by simp)) 0 hs'.1 hs'.2)
      (hv.within_of_mem (hs _ (by simp)) 0 hnano.1 hnano.2)]
    simp [Reading.flooredTime, DateField.value, hsecond, hclip]
  | milliOfDay =>
    have hday : .nanoOfDay ∉ fields := hn _ (by decide) rfl
    rw [timeOfDay, hv.get?_of_not_mem hday, hv.get?_of_mem (hs .milliOfDay (by decide))]
    change (if Count.greatest < (r.secondOfDay * 1000 + r.clippedNano / 1000000) * 1000000
      then _ else
      splitDay .milliOfDay ((r.secondOfDay * 1000 + r.clippedNano / 1000000) * 1000000)) = _
    rw [hclip] at *
    rw [if_neg (by unfold Count.greatest; omega), splitDay, if_pos (by omega), Reading.flooredTime,
      Except.ok.injEq, Prod.mk.injEq]
    omega
  | nanoOfDay =>
    rw [timeOfDay, hv.get?_of_mem (hs .nanoOfDay (by decide))]
    change splitDay .nanoOfDay (r.secondOfDay * 1000000000 + r.clippedNano) = _
    rw [hclip] at *
    rw [splitDay, if_pos (by omega), Reading.flooredTime, Except.ok.injEq, Prod.mk.injEq]
    omega

theorem place_eq {nano : Nat} (hd : v.date = .ok date) (ht : v.timeOfDay = .ok (second, nano))
    (zone : Zone) :
    v.place zone =
      match zone.localize? (.ofDate date second nano) with
      | some t => .ok t
      | none => .error (.unrepresentable (.wall (.ofDate date second nano) zone.name)) := by
  have hr : v.reading = .ok (.ofDate date second nano) := by
    rw [reading, hd, ht]
    rfl
  rw [place, hr]
  change (match zone.localize? (.ofDate date second nano) with
    | some t => pure t
    | none => throw _) = _
  cases zone.localize? (.ofDate date second nano) <;> rfl

theorem place_utc_of_midnight (hd : v.date = .ok date) (ht : v.timeOfDay = .ok (0, 0))
    (hc : date.InCalendar) :
    v.place .utc = .ok ⟨.utc, .ofDate date 0 0⟩ := by
  have hcovered : (Reading.ofDate date 0 0).InCalendar := by
    simpa [Reading.InCalendar] using hc
  rw [place_eq hd ht, Zone.localize?, ZonedTime.utc_attach?, Zone.covered?_eq hcovered]

end FieldValues

end Almanac
