import Almanac.Proofs.Format.Timestamp
import Almanac.Proofs.Listing

namespace Almanac

theorem ediv_eq_succ_ediv_iff {n size : Int} (hs : 0 < size) :
    n / size = (n + 1) / size ↔ ¬ size ∣ n + 1 := by
  have hfloor := Int.mul_ediv_self_le (x := n) (Int.ne_of_gt hs)
  have hfloor' := Int.mul_ediv_self_le (x := n + 1) (Int.ne_of_gt hs)
  have hnext := Int.lt_mul_ediv_self_add (x := n) hs
  refine ⟨fun h hd ↦ ?_, fun hd ↦ ?_⟩
  · have hwhole := Int.mul_ediv_cancel' hd
    rw [← h] at hwhole
    omega
  · by_contra hne
    have hle := Int.ediv_le_ediv hs (show n ≤ n + 1 by omega)
    have hstep := Int.mul_le_mul_of_nonneg_left (show n / size + 1 ≤ (n + 1) / size by omega)
      (Int.le_of_lt hs)
    rw [Int.mul_add, Int.mul_one] at hstep
    refine hd ⟨n / size + 1, ?_⟩
    rw [Int.mul_add, Int.mul_one]
    omega

/-- Consecutive numbers lie in different blocks just if there is one of them, or two on either side
of a multiple, or if blocks have a single number. -/
theorem ediv_inj_iff_of_consecutive {first size : Int} {count : Nat} (hs : 0 < size)
    (hcount : 0 < count) :
    (∀ i ∈ List.range count, ∀ j ∈ List.range count,
      (first + i) / size = (first + j) / size → i = j) ↔
      size = 1 ∨ count = 1 ∨ count = 2 ∧ size ∣ first + 1 := by
  simp only [List.mem_range]
  constructor
  · intro h
    have hborder (i : Nat) (hi : i + 1 < count) : size ∣ first + i + 1 := by
      by_contra hno
      have hsame := (ediv_eq_succ_ediv_iff hs).2 hno
      have := h i (by omega) (i + 1) hi (by rw [hsame, Int.natCast_succ, Int.add_assoc])
      omega
    obtain rfl | rfl | hmore : count = 1 ∨ count = 2 ∨ 3 ≤ count := by omega
    · exact .inr (.inl rfl)
    · exact .inr (.inr ⟨rfl, by simpa using hborder 0 (by decide)⟩)
    · have hdvd := Int.dvd_sub (hborder 1 (by omega)) (hborder 0 (by omega))
      rw [show first + (1 : Nat) + 1 - (first + (0 : Nat) + 1) = 1 by omega] at hdvd
      exact .inl (Int.eq_one_of_dvd_one (Int.le_of_lt hs) hdvd)
  · rintro (rfl | rfl | ⟨rfl, hborder⟩) i hi j hj hsame
    · omega
    · omega
    · have hdiffer : first / size ≠ (first + 1) / size :=
        fun he ↦ (ediv_eq_succ_ediv_iff hs).1 he hborder
      obtain ⟨rfl | rfl, rfl | rfl⟩ : (i = 0 ∨ i = 1) ∧ (j = 0 ∨ j = 1) := by omega
      · rfl
      · exact absurd (by simpa using hsame) hdiffer
      · exact absurd (by simpa using hsame.symm) hdiffer
      · rfl

namespace ZonedTime

theorem utc_plus?_nanos {r : Reading} (h : ¬ r.IsLeapSecond) (amount : Int) :
    (⟨.utc, r⟩ : ZonedTime).plus? amount .nanos =
    covered? .utc (.ofNanos (r.toNanos + amount)) := by
  change covered? .utc (r.advance amount) = _
  rw [Reading.advance, if_neg h]

end ZonedTime

namespace NamePattern

variable {p : NamePattern} {pattern : String} {start stop : Reading}

theorem names_of_nanos (hu : p.unit = .nanos) (hl : ¬ start.IsLeapSecond)
    (hl' : ¬ stop.IsLeapSecond) (hc : start.InCalendar) (hc' : stop.InCalendar) (hle : start ≤ stop)
    {count : Nat} (hcount : (count : Int) = min Count.greatest (stop.toNanos - start.toNanos) + 1) :
    p.names ⟨.utc, start⟩ ⟨.utc, stop⟩ =
      (List.range count).map fun (i : Nat) ↦ p.write ⟨.utc, .ofNanos (start.toNanos + i)⟩ := by
  have hspan : start.toNanos ≤ stop.toNanos := Reading.period_le hl hle .nanos
  have hlast : Count.clamp (stop.since start) + 1 = count := by
    rw [Reading.since_eq hl' hl, Count.clamp, hcount]
    unfold Count.least Count.greatest
    omega
  refine names_eq_map_range (between_of_nanos hu _ _) hlast fun i hi ↦ ?_
  refine ⟨⟨.utc, .ofNanos (start.toNanos + i)⟩, ?_, rfl⟩
  have hcovered : (Reading.ofNanos (start.toNanos + i)).InCalendar := by
    have hnano := Reading.nano_lt hl
    have hnano' := Reading.nano_lt hl'
    have hi' : start.toNanos + i ≤ stop.toNanos := by omega
    unfold Reading.toNanos Reading.nanosPerSecond at hi'
    simp only [Reading.InCalendar, Date.InCalendar, Reading.date, Reading.ofNanos, Reading.toNanos,
      Reading.nanosPerSecond, Reading.secondsPerDay] at hc hc' ⊢
    omega
  rw [hu, ZonedTime.utc_plus?_nanos hl, Zone.covered?_eq hcovered]

theorem write_eq_iff {a b : Reading} :
    p.write ⟨.utc, a⟩ = p.write ⟨.utc, b⟩ ↔ p.format.writeReading a = p.format.writeReading b := by
  simp [write_eq_iff_wall]

/-- In UTC each name of a listing by periods is written in a period of its own, from that of the
first instant on and up to that of the last. -/
theorem exists_names_of_regular (hu : p.unit ∈ CalendarUnit.regular) (hl : ¬ start.IsLeapSecond)
    (hl' : ¬ stop.IsLeapSecond) (hc : start.InCalendar) (hc' : stop.InCalendar)
    (hle : start ≤ stop) :
    ∃ readings : List Reading, p.names ⟨.utc, start⟩ ⟨.utc, stop⟩ =
    readings.map (fun r ↦ p.write ⟨.utc, r⟩) ∧
      ∀ (i : Nat) (hi : i < readings.length), ¬ readings[i].IsLeapSecond ∧
        readings[i].period p.unit = start.period p.unit + i ∧
        start.period p.unit + i ≤ stop.period p.unit := by
  have hempty (hnone : Listing.between p ⟨.utc, start⟩ ⟨.utc, stop⟩ = ⟨p, ⟨.utc, start⟩, 0, -1⟩) :
      p.names ⟨.utc, start⟩ ⟨.utc, stop⟩ = [] := by
    rw [names, hnone]
    rfl
  cases hf : (⟨.utc, start⟩ : ZonedTime).floorTo? p.lowest with
  | none =>
    exact ⟨[], hempty (by rw [Listing.between, hf]), fun i hi ↦ absurd hi (Nat.not_lt_zero i)⟩
  | some first =>
    cases hf' : (⟨.utc, stop⟩ : ZonedTime).floorTo? p.lowest with
    | none =>
      exact ⟨[], hempty (by rw [Listing.between, hf, hf']),
        fun i hi ↦ absurd hi (Nat.not_lt_zero i)⟩
    | some final =>
      obtain ⟨hlast, ⟨instants, hall, hyields, hend⟩, -⟩ :=
        names_step_through_periods hu rfl rfl hc hc' hl hl' hle hf hf'
      have hbetween : Listing.between p ⟨.utc, start⟩ ⟨.utc, stop⟩ =
          ⟨p, ⟨.utc, start⟩, 0, first.unitsUntil final p.unit⟩ := by rw [Listing.between, hf, hf']
      rw [hbetween] at hyields
      rw [utc_floorTo?_lowest hu hl hc] at hf
      rw [utc_floorTo?_lowest hu hl' hc'] at hf'
      rw [(ZonedTime.eq_of_covered? hf).2, (ZonedTime.eq_of_covered? hf').2,
        ZonedTime.utc_unitsUntil_ofPeriod hu] at hbetween hend hlast hyields
      have hstep (i : Nat) (hi : i < instants.length) :=
        ZonedTime.utc_period_plus? hl hu (Listing.getElem_of_map_range hall hi)
      refine ⟨instants.map ZonedTime.utc, ?_, fun i hi ↦ ?_⟩
      · rw [names, hbetween, hyields.toList_eq (by simp only [List.length_map]; omega),
          List.map_map]
        refine List.map_congr_left fun t ht ↦ ?_
        obtain ⟨i, hi, rfl⟩ := List.getElem_of_mem ht
        rw [Function.comp_apply, ← (hstep i hi).1]
      · rw [List.length_map] at hi
        obtain ⟨-, -, hleap, hperiod⟩ := hstep i hi
        simp only [List.getElem_map]
        exact ⟨hleap, hperiod, by omega⟩

theorem nodup_of_wholeSeconds (hp : compile pattern = .ok p) (h : p.format.IsTimestamp p.unit)
    (hu : p.unit ≠ .nanos) (hl : ¬ start.IsLeapSecond) (hl' : ¬ stop.IsLeapSecond)
    (hc : start.InCalendar) (hc' : stop.InCalendar) (hle : start ≤ stop) (hy : 1 ≤ start.date.year)
    (hy' : stop.date.year ≤ 9999) :
    (p.names ⟨.utc, start⟩ ⟨.utc, stop⟩).Nodup := by
  obtain ⟨letters, hletters, -⟩ := id h.fields
  obtain ⟨readings, hnames, hstep⟩ :=
    exists_names_of_regular (hletters.unit_mem_regular hu) hl hl' hc hc' hle
  have hyear (i : Nat) (hi : i < readings.length) :
      1 ≤ readings[i].date.year ∧ readings[i].date.year ≤ 9999 := by
    obtain ⟨hleap, hperiod, hlast⟩ := hstep i hi
    exact hletters.year_bounds hleap hl hl' (by omega) (by omega) hy hy'
  rw [hnames, List.Nodup, List.pairwise_map, List.pairwise_iff_getElem]
  intro i j hi hj hlt hname
  have hsame := h.period_eq (of_compile hp).1 hu (hyear i hi) (hyear j hj) (write_eq_iff.1 hname)
  rw [(hstep i hi).2.1, (hstep j hj).2.1] at hsame
  omega

theorem write_ofNanos_eq_iff (hp : compile pattern = .ok p) (h : p.format.IsTimestamp .nanos)
    {width : Nat} (hw : .fraction width ∈ p.format.pieces) {m n : Int}
    (hm : 1 ≤ (Reading.ofNanos m).date.year ∧ (Reading.ofNanos m).date.year ≤ 9999)
    (hn : 1 ≤ (Reading.ofNanos n).date.year ∧ (Reading.ofNanos n).date.year ≤ 9999) :
    p.write ⟨.utc, .ofNanos m⟩ = p.write ⟨.utc, .ofNanos n⟩ ↔
    m / 10 ^ (9 - width) = n / 10 ^ (9 - width) := by
  have hleap (nanos : Int) : ¬ (Reading.ofNanos nanos).IsLeapSecond :=
    Reading.not_isLeapSecond_ofPeriod nanos .nanos
  simp [write_eq_iff, h.writeReading_eq_iff_toNanos (of_compile hp).1 hw hm hn (hleap m) (hleap n)]

/-- In UTC the names of timestamps with a fraction differ just if no two of the nanoseconds agree as
far as the fraction has digits. -/
theorem nodup_of_nanos (hp : compile pattern = .ok p) (h : p.format.IsTimestamp .nanos)
    {width : Nat} (hw : .fraction width ∈ p.format.pieces) (hl : ¬ start.IsLeapSecond)
    (hl' : ¬ stop.IsLeapSecond) (hc : start.InCalendar) (hc' : stop.InCalendar) (hle : start ≤ stop)
    (hy : 1 ≤ start.date.year) (hy' : stop.date.year ≤ 9999) :
    (p.names ⟨.utc, start⟩ ⟨.utc, stop⟩).Nodup ↔
      (10 : Int) ^ (9 - width) = 1 ∨ stop.toNanos = start.toNanos ∨
        stop.toNanos = start.toNanos + 1 ∧ 10 ^ (9 - width) ∣ stop.toNanos := by
  have hspan : start.toNanos ≤ stop.toNanos := Reading.period_le hl hle .nanos
  obtain ⟨letters, hletters, -⟩ := id h.fields
  have hyear {nanos : Int} (hn : start.toNanos ≤ nanos) (hn' : nanos ≤ stop.toNanos) :
      1 ≤ (Reading.ofNanos nanos).date.year ∧ (Reading.ofNanos nanos).date.year ≤ 9999 := by
    have hperiod : (Reading.ofNanos nanos).period .nanos = nanos := Reading.toNanos_ofNanos nanos
    exact hletters.year_bounds (Reading.not_isLeapSecond_ofPeriod nanos .nanos) hl hl'
      (hperiod.symm ▸ hn) (hperiod.symm ▸ hn') hy hy'
  obtain ⟨count, hcount⟩ :
    ∃ count : Nat, (count : Int) = min Count.greatest (stop.toNanos - start.toNanos) + 1 :=
    ⟨(min Count.greatest (stop.toNanos - start.toNanos) + 1).toNat, by unfold Count.greatest; omega⟩
  -- Two names agree just if the digits that are written put their nanoseconds into one block.
  have hblocks : (∀ i ∈ List.range count,
      ∀ j ∈ List.range count, p.write ⟨.utc, .ofNanos (start.toNanos + i)⟩ =
      p.write ⟨.utc, .ofNanos (start.toNanos + j)⟩ → i = j) ↔ (10 : Int) ^ (9 - width) = 1 ∨
    count = 1 ∨ count = 2 ∧ 10 ^ (9 - width) ∣ start.toNanos + 1 := by
    rw [← ediv_inj_iff_of_consecutive (Int.pow_pos (by decide))
      (by unfold Count.greatest at hcount; omega)]
    refine forall₂_congr fun i hi ↦ forall₂_congr fun j hj ↦ ?_
    rw [List.mem_range] at hi hj
    rw [write_ofNanos_eq_iff hp h hw (hyear (by omega) (by omega)) (hyear (by omega) (by omega))]
  rw [names_of_nanos (unit_eq_of_isTimestamp hp h) hl hl' hc hc' hle hcount,
    List.nodup_map_iff_inj_on List.nodup_range, hblocks]
  unfold Count.greatest at hcount
  refine or_congr_right (or_congr (by omega) ?_)
  constructor
  · rintro ⟨htwo, hdvd⟩
    have hnext : stop.toNanos = start.toNanos + 1 := by omega
    exact ⟨hnext, hnext ▸ hdvd⟩
  · rintro ⟨hnext, hdvd⟩
    exact ⟨by omega, hnext ▸ hdvd⟩

/-- The names of timestamps from one instant of UTC to another are all different, if their finest
field is not a fraction of a second or has nine digits. Shorter fractions are repeated, unless the
instants are the same or one nanosecond apart with the last digit written changing in between. -/
theorem timestamps_differ_iff (hp : compile pattern = .ok p) {unit : CalendarUnit}
    (h : p.format.IsTimestamp unit) (hl : ¬ start.IsLeapSecond) (hl' : ¬ stop.IsLeapSecond)
    (hle : start ≤ stop) (hy : 1 ≤ start.date.year) (hy' : stop.date.year ≤ 9999) :
    (p.names ⟨.utc, start⟩ ⟨.utc, stop⟩).Nodup ↔
      ∀ width, .fraction width ∈ p.format.pieces → width = 9 ∨ start = stop ∨
        stop.toNanos = start.toNanos + 1 ∧ 10 ^ (9 - width) ∣ stop.toNanos := by
  obtain rfl := unit_eq_of_isTimestamp hp h
  obtain ⟨letters, hletters, hperm⟩ := id h.fields
  have hyears : start.date.year ≤ stop.date.year := Date.year_le (Reading.date_le hle)
  have hc : start.InCalendar :=
    Date.inCalendar_iff_year.2 (by unfold Date.minYear Date.maxYear; omega)
  have hc' : stop.InCalendar :=
    Date.inCalendar_iff_year.2 (by unfold Date.minYear Date.maxYear; omega)
  by_cases hu : p.unit = .nanos
  · rw [hu] at h
    obtain ⟨width, hw⟩ := h.exists_fraction (of_compile hp).1
    have hnine := (Format.sound_of_compile (of_compile hp).1 hw).2
    have hwide : (10 : Int) ^ (9 - width) = 1 ↔ width = 9 := by
      have hcast : (10 : Int) ^ (9 - width) = 1 ↔ 10 ^ (9 - width) = 1 := by norm_cast
      rw [hcast, Nat.pow_eq_one]
      omega
    have hsame : stop.toNanos = start.toNanos ↔ start = stop := by
      refine ⟨fun he ↦ ?_, fun he ↦ by rw [he]⟩
      rw [← Reading.ofNanos_toNanos hl, ← Reading.ofNanos_toNanos hl', he]
    rw [nodup_of_nanos hp h hw hl hl' hc hc' hle hy hy', hwide, hsame]
    refine ⟨fun hdiffer width' hw' ↦ ?_, fun hall ↦ hall width hw⟩
    rw [h.width_unique hw' hw]
    exact hdiffer
  · refine iff_of_true (nodup_of_wholeSeconds hp h hu hl hl' hc hc' hle hy hy') fun width hw ↦ ?_
    exact absurd (hperm.mem_iff.1 (List.mem_filterMap.2 ⟨_, hw, rfl⟩))
      (hletters.fractionOfSecond_not_mem hu)

def wordedDays : NamePattern :=
  ⟨.dayOfMonth, .ofPattern "d MMM yyyy",
    ⟨"d MMM yyyy", [.number .dayOfMonth 1 2, .literal [' '],
      .name .monthOfYear Letter.shortMonths 1, .literal [' '], .number .yearOfEra 4 10]⟩⟩

def numericMillis : NamePattern :=
  ⟨.fractionOfSecond, .ofPattern "yyyy.MM.dd.HH.mm.ss.SSS",
    ⟨"yyyy.MM.dd.HH.mm.ss.SSS", [.number .yearOfEra 4 10, .literal ['.'],
      .number .monthOfYear 2 2, .literal ['.'], .number .dayOfMonth 2 2, .literal ['.'],
      .number .hourOfDay 2 2, .literal ['.'], .number .minuteOfHour 2 2, .literal ['.'],
      .number .secondOfMinute 2 2, .literal ['.'], .fraction 3]⟩⟩

theorem isTimestamp_wordedDays : wordedDays.format.IsTimestamp .days where
  fields := ⟨_, .day (.month .yearOfEra), by decide⟩
  not_short := by simp [wordedDays]
  not_narrow := by decide
  separated := by decide

theorem isTimestamp_numericMillis : numericMillis.format.IsTimestamp .nanos where
  fields := ⟨_, .fraction (.second (.minute (.hour (.day (.month .yearOfEra))))), by decide⟩
  not_short := by simp [numericMillis]
  not_narrow := by decide
  separated := by decide

theorem compile_wordedDays : compile "d MMM yyyy" = .ok wordedDays :=
  compile_of_isTimestamp (by decide) isTimestamp_wordedDays (by decide)

theorem compile_numericMillis : compile "yyyy.MM.dd.HH.mm.ss.SSS" = .ok numericMillis :=
  compile_of_isTimestamp (by decide) isTimestamp_numericMillis (by decide)

theorem days_differ_and_millis_repeat :
    let day (month day : Int) : ZonedTime := ⟨.utc, .ofDate (.ofYmd 2024 month day) 0 0⟩
    let nano (n : Nat) : ZonedTime := ⟨.utc, ⟨1704067200, n⟩⟩
    (wordedDays.names (day 2 28) (day 3 1)).Nodup ∧
    (numericMillis.names (nano 999999) (nano 1000000)).Nodup ∧
      ¬ (numericMillis.names (nano 0) (nano 1)).Nodup := by
  intro day nano
  have hwidth : .fraction 3 ∈ numericMillis.format.pieces := by decide
  have hdays := @timestamps_differ_iff _ _ (.ofDate (.ofYmd 2024 2 28) 0 0)
    (.ofDate (.ofYmd 2024 3 1) 0 0)
    compile_wordedDays _ isTimestamp_wordedDays (by decide) (by decide) (by decide)
    (by decide) (by decide)
  have hborder := @timestamps_differ_iff _ _ ⟨1704067200, 999999⟩ ⟨1704067200, 1000000⟩
    compile_numericMillis _ isTimestamp_numericMillis (by decide) (by decide) (by decide)
    (by decide) (by decide)
  have hinside := @timestamps_differ_iff _ _ ⟨1704067200, 0⟩ ⟨1704067200, 1⟩
    compile_numericMillis _ isTimestamp_numericMillis (by decide) (by decide) (by decide)
    (by decide) (by decide)
  refine ⟨hdays.2 (by simp [wordedDays]), hborder.2 fun width hw ↦ ?_, fun hdiffer ↦ ?_⟩
  · rw [isTimestamp_numericMillis.width_unique hw hwidth]
    decide
  · exact absurd (hinside.1 hdiffer 3 hwidth) (by decide)

/-- The first two nanoseconds of 2024 are both listed in milliseconds. -/
theorem millis_not_always_distinct :
    ¬ ∀ (pattern : String) (p : NamePattern) (unit : CalendarUnit) (start stop : Reading),
    compile pattern = .ok p → p.format.IsTimestamp unit → ¬ start.IsLeapSecond →
    ¬ stop.IsLeapSecond → start ≤ stop → 1 ≤ start.date.year → stop.date.year ≤ 9999 →
    (p.names ⟨.utc, start⟩ ⟨.utc, stop⟩).Nodup := by
  intro h
  have hnodup := h _ _ _ ⟨1704067200, 0⟩ ⟨1704067200, 1⟩ compile_numericMillis
    isTimestamp_numericMillis (by decide)
    (by decide) (by decide) (by decide) (by decide)
  have hnames : numericMillis.names ⟨.utc, ⟨1704067200, 0⟩⟩ ⟨.utc, ⟨1704067200, 1⟩⟩ =
      ["2024.01.01.00.00.00.000", "2024.01.01.00.00.00.000"] := by decide +kernel
  rw [hnames] at hnodup
  exact absurd hnodup (by decide)

end NamePattern

end Almanac
