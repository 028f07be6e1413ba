import Almanac.Proofs.Date.Distance
import Almanac.Proofs.Format.Separated
import Almanac.Proofs.NamePattern
import Almanac.Proofs.ZonedTime.Period
import Mathlib.Algebra.Group.Int.Defs

namespace Almanac

inductive Letter.Numbers : Letter → CalendarUnit → CalendarUnit → Prop
  | month : Numbers .monthOfYear .months .years
  | day : Numbers .dayOfMonth .days .months
  | hour : Numbers .hourOfDay .hours .days
  | minute : Numbers .minuteOfHour .minutes .hours
  | second : Numbers .secondOfMinute .seconds .minutes

namespace Letter.Numbers

variable {letter : Letter} {fine coarse : CalendarUnit} {a b : Reading}

theorem value_bounds (h : letter.Numbers fine coarse) (r : Reading) :
    0 ≤ letter.field.value r ∧ letter.field.value r < (10 ^ 2 : Nat) := by
  have hmonth := Date.month_bounds r.date
  have hday := Date.day_bounds r.date
  have hday' := r.date.day_le
  have hhour := r.hour_bounds
  have hminute := r.minute_bounds
  have hsecond := r.secondOfMinute_bounds
  cases h <;> simp only [field, DateField.value] <;> omega

theorem not_isSigned (h : letter.Numbers fine coarse) : letter.isSigned = false := by
  cases h <;> rfl

/-- The finer period is earlier if the coarser one is, or if it has a smaller number in the same
one. -/
theorem period_lt_iff (h : letter.Numbers fine coarse) :
    a.period fine < b.period fine ↔ a.period coarse < b.period coarse ∨
      a.period coarse = b.period coarse ∧ letter.field.value a < letter.field.value b := by
  cases h with
  | month =>
    have hmonth := Date.monthIndex_emod a.date
    have hmonth' := Date.monthIndex_emod b.date
    simp only [Reading.period, field, DateField.value]
    omega
  | day =>
    have hday := Date.day_bounds a.date
    have hday' := a.date.day_le
    have hday'' := Date.day_bounds b.date
    have hday''' := b.date.day_le
    change a.date < b.date ↔ _
    rw [Date.lt_iff_place]
    simp only [Date.place, Reading.period, field, DateField.value]
    omega
  | hour | minute | second =>
    simp only [Reading.period, Reading.date, field, DateField.value, Reading.hour, Reading.minute,
      Reading.secondOfMinute, Reading.secondOfDay, Reading.secondsPerDay]
    omega

theorem period_eq_iff (h : letter.Numbers fine coarse) :
    a.period fine = b.period fine ↔ a.period coarse = b.period coarse ∧
    letter.field.value a = letter.field.value b := by
  have hlt := @period_lt_iff _ _ _ a b h
  have hgt := @period_lt_iff _ _ _ b a h
  omega

theorem period_le (h : letter.Numbers fine coarse) (hle : a.period fine ≤ b.period fine) :
    a.period coarse ≤ b.period coarse := by
  have hlt := @period_lt_iff _ _ _ b a h
  omega

end Letter.Numbers

/-- The letters from the year down to some letter of a date or of a time of day, the finest first,
with its unit. -/
inductive TimestampLetters : List Letter → CalendarUnit → Prop
  | year : TimestampLetters [.year] .years
  | yearOfEra : TimestampLetters [.yearOfEra] .years
  | month {letters : List Letter} : TimestampLetters letters .years →
      TimestampLetters (.monthOfYear :: letters) .months
  | day {letters : List Letter} : TimestampLetters letters .months →
      TimestampLetters (.dayOfMonth :: letters) .days
  | hour {letters : List Letter} : TimestampLetters letters .days →
      TimestampLetters (.hourOfDay :: letters) .hours
  | minute {letters : List Letter} :
      TimestampLetters letters .hours → TimestampLetters (.minuteOfHour :: letters) .minutes
  | second {letters : List Letter} :
      TimestampLetters letters .minutes → TimestampLetters (.secondOfMinute :: letters) .seconds
  | fraction {letters : List Letter} :
      TimestampLetters letters .seconds → TimestampLetters (.fractionOfSecond :: letters) .nanos

/-- The fields of a timestamp stand in any order, each once, with text between them that does not
begin with a digit. The year is written in full, and so are months that are written as names, but
for their endings. -/
structure Format.IsTimestamp (f : Format) (unit : CalendarUnit) : Prop where
  fields : ∃ letters, TimestampLetters letters unit ∧
    (f.pieces.filterMap Piece.letter?).Perm letters
  not_short : ∀ letter, .shortYear letter ∉ f.pieces
  not_narrow : ∀ piece ∈ f.pieces, ¬ piece.isNarrow
  separated : Piece.separated f.pieces

namespace TimestampLetters

variable {letters : List Letter} {unit : CalendarUnit} {a b r : Reading} {letter : Letter}

theorem exists_cons (h : TimestampLetters letters unit) :
    ∃ finest rest, letters = finest :: rest ∧ finest.unit = unit := by
  cases h <;> exact ⟨_, _, rfl, rfl⟩

theorem pairwise_rank (h : TimestampLetters letters unit) :
    letters.Pairwise fun a b ↦ a.rank < b.rank := by
  have hcons {next : Letter} {letters : List Letter} {unit : CalendarUnit}
      (h : TimestampLetters letters unit)
      (hrank : ∀ coarser : Letter, coarser.unit = unit → next.rank < coarser.rank)
      (ih : letters.Pairwise fun a b ↦ a.rank < b.rank) : (next :: letters).Pairwise fun a b ↦
      a.rank < b.rank := by
    obtain ⟨head, rest, rfl, hunit⟩ := h.exists_cons
    have hhead := hrank head hunit
    refine List.pairwise_cons.2 ⟨fun letter hm ↦ ?_, ih⟩
    rcases List.mem_cons.1 hm with rfl | hm
    · exact hhead
    · exact Nat.lt_trans hhead ((List.pairwise_cons.1 ih).1 letter hm)
  induction h with
  | year | yearOfEra => exact List.pairwise_singleton _ _
  | month h ih | day h ih | hour h ih | minute h ih | second h ih | fraction h ih =>
    exact hcons h (by intro coarser; cases coarser <;> decide) ih

theorem nodup (h : TimestampLetters letters unit) : letters.Nodup :=
  h.pairwise_rank.imp fun {a b} hlt (he : a = b) ↦ Nat.lt_irrefl b.rank (he ▸ hlt)

theorem unit_of_finest (h : TimestampLetters letters unit) {finest : Letter} (hm : finest ∈ letters)
    (hleast : ∀ letter ∈ letters, finest.rank ≤ letter.rank) : finest.unit = unit := by
  have hrank := h.pairwise_rank
  obtain ⟨head, rest, rfl, hunit⟩ := h.exists_cons
  rcases List.mem_cons.1 hm with rfl | hm
  · exact hunit
  · have hle := hleast head List.mem_cons_self
    have hlt := (List.pairwise_cons.1 hrank).1 finest hm
    omega

theorem isPlacedBy (h : TimestampLetters letters unit) {present : LetterSet}
    (hm : ∀ letter ∈ letters, letter ∈ present) :
    ∀ letter ∈ letters, letter.isPlacedBy present := by
  have hcons {next : Letter} {letters : List Letter} {unit : CalendarUnit}
      (h : TimestampLetters letters unit)
      (hgroup : ∀ coarser : Letter, coarser.unit = unit → ∃ group ∈ next.placers, coarser ∈ group)
      (hm : ∀ letter ∈ next :: letters, letter ∈ present)
      (ih : (∀ letter ∈ letters, letter ∈ present) →
        ∀ letter ∈ letters, letter.isPlacedBy present) :
      ∀ letter ∈ next :: letters, letter.isPlacedBy present := by
    have hplaced := ih fun letter hl ↦ hm letter (List.mem_cons_of_mem _ hl)
    obtain ⟨head, rest, rfl, hunit⟩ := h.exists_cons
    obtain ⟨group, hg, hhead⟩ := hgroup head hunit
    refine List.forall_mem_cons.2 ⟨Letter.isPlacedBy_iff.2 (.inr ⟨group, hg, head, hhead, ?_, ?_⟩),
      hplaced⟩
    · exact hm head (List.mem_cons_of_mem _ List.mem_cons_self)
    · exact hplaced head List.mem_cons_self
  induction h with
  | year | yearOfEra => exact List.forall_mem_singleton.2 (Letter.isPlacedBy_iff.2 (.inl rfl))
  | month h ih | day h ih | hour h ih | minute h ih | second h ih | fraction h ih =>
    exact hcons h (by intro coarser; cases coarser <;> decide) hm ih

theorem unit_mem_regular (h : TimestampLetters letters unit) (hu : unit ≠ .nanos) :
    unit ∈ CalendarUnit.regular := by
  cases h with
  | fraction => exact absurd rfl hu
  | year | yearOfEra | month | day | hour | minute | second => decide

theorem exists_of_nanos (h : TimestampLetters letters .nanos) :
    ∃ rest, letters = .fractionOfSecond :: rest ∧ TimestampLetters rest .seconds := by
  cases h with
  | fraction h => exact ⟨_, rfl, h⟩

theorem weekBasedYear_not_mem (h : TimestampLetters letters unit) : .weekBasedYear ∉ letters := by
  induction h with
  | year | yearOfEra => decide
  | month _ ih | day _ ih | hour _ ih | minute _ ih | second _ ih | fraction _ ih =>
    exact fun hm ↦ (List.mem_cons.1 hm).elim (fun he ↦ nomatch he) ih

theorem fractionOfSecond_not_mem (h : TimestampLetters letters unit) (hu : unit ≠ .nanos) :
    .fractionOfSecond ∉ letters := by
  induction h with
  | year | yearOfEra => decide
  | month _ ih | day _ ih | hour _ ih | minute _ ih | second _ ih =>
    exact fun hm ↦ (List.mem_cons.1 hm).elim (fun he ↦ nomatch he) (ih (by decide))
  | fraction => exact absurd rfl hu

theorem period_eq (h : TimestampLetters letters unit) (hu : unit ≠ .nanos) (ha : 1 ≤ a.date.year)
    (hb : 1 ≤ b.date.year) (hv : ∀ letter ∈ letters, letter.field.value a = letter.field.value b) :
    a.period unit = b.period unit := by
  have hyear (h : a.date.year = b.date.year) : a.period .years = b.period .years := by
    rwa [Reading.period, Reading.period, Date.monthIndex_ediv, Date.monthIndex_ediv]
  have hcons {letter : Letter} {letters : List Letter} {fine coarse : CalendarUnit}
      (hn : letter.Numbers fine coarse)
      (hv : ∀ other ∈ letter :: letters, other.field.value a = other.field.value b)
      (ih : (∀ other ∈ letters, other.field.value a = other.field.value b) →
        a.period coarse = b.period coarse) :
      a.period fine = b.period fine :=
    hn.period_eq_iff.2 ⟨ih fun other hm ↦ hv other (List.mem_cons_of_mem _ hm),
      hv letter List.mem_cons_self⟩
  induction h with
  | year => exact hyear (hv .year List.mem_cons_self)
  | yearOfEra =>
    have hera : a.date.yearOfEra = b.date.yearOfEra := hv .yearOfEra List.mem_cons_self
    rw [Date.yearOfEra, if_pos ha, Date.yearOfEra, if_pos hb] at hera
    exact hyear hera
  | month _ ih => exact hcons .month hv (ih (by decide))
  | day _ ih => exact hcons .day hv (ih (by decide))
  | hour _ ih => exact hcons .hour hv (ih (by decide))
  | minute _ ih => exact hcons .minute hv (ih (by decide))
  | second _ ih => exact hcons .second hv (ih (by decide))
  | fraction => exact absurd rfl hu

theorem year_le (h : TimestampLetters letters unit) (ha : ¬ a.IsLeapSecond) (hb : ¬ b.IsLeapSecond)
    (hle : a.period unit ≤ b.period unit) : a.date.year ≤ b.date.year := by
  have hnano := Reading.nano_lt ha
  have hnano' := Reading.nano_lt hb
  induction h with
  | year | yearOfEra =>
    rwa [Reading.period, Reading.period, Date.monthIndex_ediv, Date.monthIndex_ediv] at hle
  | month _ ih => exact ih (Letter.Numbers.month.period_le hle)
  | day _ ih => exact ih (Letter.Numbers.day.period_le hle)
  | hour _ ih => exact ih (Letter.Numbers.hour.period_le hle)
  | minute _ ih => exact ih (Letter.Numbers.minute.period_le hle)
  | second _ ih => exact ih (Letter.Numbers.second.period_le hle)
  | fraction _ ih =>
    refine ih ?_
    simp only [Reading.period, Reading.toNanos, Reading.nanosPerSecond] at hle ⊢
    omega

theorem year_bounds (h : TimestampLetters letters unit) (hr : ¬ r.IsLeapSecond)
    (ha : ¬ a.IsLeapSecond) (hb : ¬ b.IsLeapSecond) (hle : a.period unit ≤ r.period unit)
    (hle' : r.period unit ≤ b.period unit) (hy : 1 ≤ a.date.year) (hy' : b.date.year ≤ 9999) :
    1 ≤ r.date.year ∧ r.date.year ≤ 9999 :=
  ⟨Int.le_trans hy (h.year_le ha hr hle), Int.le_trans (h.year_le hr hb hle') hy'⟩

theorem sign_eq_nil (h : TimestampLetters letters unit) (hm : letter ∈ letters)
    (hy : 1 ≤ r.date.year ∧ r.date.year ≤ 9999) (hr : r.date.NearCalendar) (least : Nat) :
    letter.sign least (letter.field.value r) = [] := by
  unfold Letter.sign
  by_cases hsigned : letter.isSigned
  · obtain rfl : letter = .year := by
      rcases (by simpa [Letter.isSigned] using hsigned : letter = .weekBasedYear ∨ letter = .year)
        with rfl | he
      · exact absurd hm h.weekBasedYear_not_mem
      · exact he
    have hvalue : Letter.year.field.value r = r.date.year := rfl
    rw [hvalue, if_neg (by omega)]
    apply if_neg
    rintro ⟨-, hleast, hlonger⟩
    have hsmall : r.date.year.natAbs < 10 ^ least :=
      Nat.lt_of_lt_of_le (show r.date.year.natAbs < 10 ^ 4 by omega)
        (Nat.pow_le_pow_right (by decide) hleast)
    have hlength := Decimal.length_padded_le (Nat.le_refl least) (by omega) hsmall
    omega
  · have hvalue := Letter.value_nonneg hsigned hr
    rw [if_neg (by omega), if_neg fun hplus ↦ hsigned hplus.1]

end TimestampLetters

theorem Letter.value_eq_of_second_eq {letter : Letter} {a b : Reading}
    (h : fractionOfSecond.rank < letter.rank) (hs : a.second = b.second) :
    letter.field.value a = letter.field.value b := by
  obtain ⟨second, nano⟩ := a
  obtain ⟨second', nano'⟩ := b
  obtain rfl : second = second' := hs
  cases letter <;> first
    | exact absurd h (by decide)
    | rfl

theorem Piece.content?_eq_of_letter?_eq_none {piece : Piece} {a b : Reading}
    (hl : piece.letter? = none) :
    piece.content? a = piece.content? b := by
  cases piece with
  | literal text => rfl
  | number | shortYear | fraction | name => cases hl

theorem Piece.content?_eq_iff {piece : Piece} {letter : Letter} {a b : Reading}
    (hl : piece.letter? = some letter) (hno : letter ≠ .fractionOfSecond) :
    piece.content? a = piece.content? b ↔ letter.field.value a = letter.field.value b := by
  cases piece with
  | literal text => cases hl
  | number | shortYear | name =>
    cases hl
    simp only [content?, Option.some.injEq, Prod.mk.injEq, true_and]
  | fraction width => exact absurd (Option.some.inj hl).symm hno

namespace Reading

variable {a b r : Reading} {width : Nat}

theorem toNanos_ediv (hw : width ≤ 9) (r : Reading) :
    r.toNanos / 10 ^ (9 - width) = r.second * 10 ^ width + (r.nano / 10 ^ (9 - width) : Nat) := by
  have hsplit : nanosPerSecond = 10 ^ width * 10 ^ (9 - width) := by
    rw [← Int.pow_add, Nat.add_sub_cancel' hw]
    rfl
  have hpos : (10 : Int) ^ (9 - width) ≠ 0 := Int.pow_ne_zero (by decide)
  rw [toNanos, hsplit, ← Int.mul_assoc, Int.add_comm, Int.add_mul_ediv_right _ _ hpos, Int.add_comm]
  push_cast
  rfl

theorem toNanos_ediv_eq_iff (hw : width ≤ 9) (ha : ¬ a.IsLeapSecond) (hb : ¬ b.IsLeapSecond) :
    a.toNanos / 10 ^ (9 - width) = b.toNanos / 10 ^ (9 - width) ↔
      a.second = b.second ∧ a.nano / 10 ^ (9 - width) = b.nano / 10 ^ (9 - width) := by
  have hsecond {r : Reading} (h : ¬ r.IsLeapSecond) :
      r.toNanos / 10 ^ (9 - width) / 10 ^ width = r.second := by
    have hnano := nano_lt h
    rw [Int.ediv_ediv_of_nonneg (Int.pow_nonneg (by decide)), ← Int.pow_add, Nat.sub_add_cancel hw]
    unfold toNanos nanosPerSecond
    omega
  constructor
  · intro h
    have hsame : a.second = b.second := by rw [← hsecond ha, h, hsecond hb]
    rw [toNanos_ediv hw, toNanos_ediv hw, hsame] at h
    exact ⟨hsame, Int.ofNat_inj.1 (Int.add_left_cancel h)⟩
  · rintro ⟨hsame, hnano⟩
    rw [toNanos_ediv hw, toNanos_ediv hw, hsame, hnano]

end Reading

namespace Format

variable {f : Format} {unit : CalendarUnit} {a b : Reading} {pattern : String} {width : Nat}

theorem inCalendar_of_year {d : Date} (hy : 1 ≤ d.year ∧ d.year ≤ 9999) : d.InCalendar :=
  Date.inCalendar_iff_year.2 (by unfold Date.minYear Date.maxYear; omega)

theorem nearCalendar_of_year {d : Date} (hy : 1 ≤ d.year ∧ d.year ≤ 9999) : d.NearCalendar :=
  (inCalendar_of_year hy).nearCalendar

theorem exists_eq_fraction (hf : compile pattern = .ok f) {piece : Piece} (hp : piece ∈ f.pieces)
    (hl : piece.letter? = some .fractionOfSecond) : ∃ width, piece = .fraction width := by
  rcases mem_pieces_of_compile hf hp with ⟨text, -, rfl⟩ | ⟨letter, run, -, -, rfl⟩
  · cases hl
  · rw [Letter.letter?_piece] at hl
    obtain rfl := Option.some.inj hl
    exact ⟨run, rfl⟩

namespace IsTimestamp

theorem digits_of_numeric (h : f.IsTimestamp unit) (hy : 1 ≤ a.date.year ∧ a.date.year ≤ 9999) :
    ∀ piece ∈ f.pieces, piece.isNumeric → ∀ c ∈ piece.write a, c.isDigit := by
  obtain ⟨letters, hletters, hperm⟩ := h.fields
  intro piece hp hnumeric c hc
  cases piece with
  | number letter least most =>
    have hm : letter ∈ letters := hperm.mem_iff.1 (List.mem_filterMap.2 ⟨_, hp, rfl⟩)
    rw [Piece.write, hletters.sign_eq_nil hm hy (nearCalendar_of_year hy), List.nil_append] at hc
    exact Decimal.isDigit_of_mem_padded hc
  | shortYear letter => exact absurd hp (h.not_short letter)
  | fraction width => exact Decimal.isDigit_of_mem_padded (List.mem_of_mem_take hc)
  | literal | name => cases hnumeric

theorem writeReading_eq_iff (hf : compile pattern = .ok f) (h : f.IsTimestamp unit)
    (ha : 1 ≤ a.date.year ∧ a.date.year ≤ 9999) (hb : 1 ≤ b.date.year ∧ b.date.year ≤ 9999) :
    f.writeReading a = f.writeReading b ↔ ∀ piece ∈ f.pieces, piece.content? a = piece.content? b :=
  Format.writeReading_eq_iff (nearCalendar_of_year ha) (nearCalendar_of_year hb)
    (fun _ ↦ sound_of_compile hf)
    h.not_narrow h.not_short (h.digits_of_numeric ha) (h.digits_of_numeric hb) h.separated

theorem value_eq_of_contents {letters : List Letter}
    (hperm : (f.pieces.filterMap Piece.letter?).Perm letters)
    (hc : ∀ piece ∈ f.pieces, piece.content? a = piece.content? b) {letter : Letter}
    (hm : letter ∈ letters) (hno : letter ≠ .fractionOfSecond) :
    letter.field.value a = letter.field.value b := by
  obtain ⟨piece, hp, hletter⟩ := List.mem_filterMap.1 (hperm.mem_iff.2 hm)
  exact (Piece.content?_eq_iff hletter hno).1 (hc piece hp)

theorem period_eq (hf : compile pattern = .ok f) (h : f.IsTimestamp unit) (hu : unit ≠ .nanos)
    (ha : 1 ≤ a.date.year ∧ a.date.year ≤ 9999) (hb : 1 ≤ b.date.year ∧ b.date.year ≤ 9999)
    (hw : f.writeReading a = f.writeReading b) : a.period unit = b.period unit := by
  have hcontents := (h.writeReading_eq_iff hf ha hb).1 hw
  obtain ⟨letters, hletters, hperm⟩ := h.fields
  refine hletters.period_eq hu ha.1 hb.1 fun letter hm ↦ value_eq_of_contents hperm hcontents hm ?_
  rintro rfl
  exact hletters.fractionOfSecond_not_mem hu hm

theorem width_unique (h : f.IsTimestamp unit) {width' : Nat} (hw : .fraction width ∈ f.pieces)
    (hw' : .fraction width' ∈ f.pieces) : width = width' := by
  obtain ⟨letters, hletters, hperm⟩ := h.fields
  have hdistinct := List.pairwise_filterMap.1 (hperm.nodup_iff.2 hletters.nodup)
  have hsymm : Std.Symm fun piece other : Piece ↦ ∀ letter, piece.letter? = some letter →
      ∀ letter', other.letter? = some letter' → letter ≠ letter' :=
    ⟨fun piece other hapart letter hletter letter' hletter' ↦
      (hapart letter' hletter' letter hletter).symm⟩
  by_contra hne
  exact hdistinct.forall hw hw' (mt Piece.fraction.inj hne) _ rfl _ rfl rfl

theorem exists_fraction (hf : compile pattern = .ok f) (h : f.IsTimestamp .nanos) :
    ∃ width, .fraction width ∈ f.pieces := by
  obtain ⟨letters, hletters, hperm⟩ := h.fields
  obtain ⟨letters, rfl, -⟩ := hletters.exists_of_nanos
  obtain ⟨piece, hp, hletter⟩ := List.mem_filterMap.1 (hperm.mem_iff.2 List.mem_cons_self)
  obtain ⟨width, rfl⟩ := exists_eq_fraction hf hp hletter
  exact ⟨width, hp⟩

/-- The text of a timestamp with a fraction tells the nanoseconds as far as the fraction has
digits. -/
theorem writeReading_eq_iff_toNanos (hf : compile pattern = .ok f) (h : f.IsTimestamp .nanos)
    (hw : .fraction width ∈ f.pieces) (ha : 1 ≤ a.date.year ∧ a.date.year ≤ 9999)
    (hb : 1 ≤ b.date.year ∧ b.date.year ≤ 9999) (hla : ¬ a.IsLeapSecond) (hlb : ¬ b.IsLeapSecond) :
    f.writeReading a = f.writeReading b ↔
    a.toNanos / 10 ^ (9 - width) = b.toNanos / 10 ^ (9 - width) := by
  have hclipped {r : Reading} (hl : ¬ r.IsLeapSecond) : r.clippedNano = r.nano := by
    have := Reading.nano_lt hl
    exact Nat.min_eq_left (by omega)
  have hpos : 10 ^ (9 - width) ≠ 0 := Nat.ne_of_gt (Nat.pow_pos (by decide))
  have hfraction : (Piece.fraction width).content? a = (Piece.fraction width).content? b ↔
      a.nano / 10 ^ (9 - width) = b.nano / 10 ^ (9 - width) := by
    simp only [Piece.content?, Option.some.injEq, Prod.mk.injEq, true_and, Int.ofNat_inj,
      Nat.mul_left_inj hpos, hclipped hla, hclipped hlb]
  rw [h.writeReading_eq_iff hf ha hb,
    Reading.toNanos_ediv_eq_iff (sound_of_compile hf hw).2 hla hlb]
  obtain ⟨letters, hletters, hperm⟩ := h.fields
  obtain ⟨letters, rfl, hseconds⟩ := hletters.exists_of_nanos
  constructor
  · intro hcontents
    refine ⟨hseconds.period_eq (by decide) ha.1 hb.1 fun letter hm ↦ ?_,
      hfraction.1 (hcontents _ hw)⟩
    refine value_eq_of_contents hperm hcontents (List.mem_cons_of_mem _ hm) ?_
    rintro rfl
    exact hseconds.fractionOfSecond_not_mem (by decide) hm
  · rintro ⟨hsecond, hnano⟩ piece hp
    cases hletter : piece.letter? with
    | none => exact Piece.content?_eq_of_letter?_eq_none hletter
    | some letter =>
      rcases List.mem_cons.1 (hperm.mem_iff.1 (List.mem_filterMap.2 ⟨piece, hp, hletter⟩))
        with rfl | hm
      · obtain ⟨width', rfl⟩ := exists_eq_fraction hf hp hletter
        rw [h.width_unique hp hw]
        exact hfraction.2 hnano
      · have hcoarser := (List.pairwise_cons.1 hletters.pairwise_rank).1 letter hm
        refine (Piece.content?_eq_iff hletter fun he ↦ ?_).2
          (Letter.value_eq_of_second_eq hcoarser hsecond)
        rw [he] at hcoarser
        exact Nat.lt_irrefl _ hcoarser

end IsTimestamp

end Format

namespace NamePattern

variable {p : NamePattern} {f : Format} {pattern : String} {unit : CalendarUnit}
  {letters : List Letter} {lowest : Letter}

theorem unit_eq_of_letters (hp : compile pattern = .ok p) (h : TimestampLetters letters unit)
    (hperm : (p.format.pieces.filterMap Piece.letter?).Perm letters) : p.unit = unit := by
  obtain ⟨-, hletters, hlowest⟩ := of_compile hp
  have hmem (letter : Letter) : letter ∈ p.letters ↔ letter ∈ letters := by
    simp [hletters, Format.letters, hperm.mem_iff]
  refine h.unit_of_finest ((hmem _).1 (LetterSet.mem_of_lowest? hlowest)) fun letter hm ↦ ?_
  exact LetterSet.rank_le_of_lowest? hlowest ((hmem letter).2 hm)

theorem unit_eq_of_isTimestamp (hp : compile pattern = .ok p) (h : p.format.IsTimestamp unit) :
    p.unit = unit := by
  obtain ⟨letters, hletters, hperm⟩ := h.fields
  exact unit_eq_of_letters hp hletters hperm

theorem compile_of_letters (hf : Format.compile pattern = .ok f) (h : TimestampLetters letters unit)
    (hperm : (f.pieces.filterMap Piece.letter?).Perm letters)
    (hl : (LetterSet.ofPattern pattern).lowest? = some lowest) :
    compile pattern = .ok ⟨lowest, .ofPattern pattern, f⟩ := by
  have hmem (letter : Letter) : letter ∈ LetterSet.ofPattern pattern ↔ letter ∈ letters := by
    simp [← Format.letters_eq_ofPattern hf, Format.letters, hperm.mem_iff]
  have hplaced := h.isPlacedBy fun letter ↦ (hmem letter).2
  exact compile_eq hl (hplaced lowest ((hmem lowest).1 (LetterSet.mem_of_lowest? hl))) hf

/-- A timestamp always is a pattern for names. -/
theorem compile_of_isTimestamp (hf : Format.compile pattern = .ok f) (h : f.IsTimestamp unit)
    (hl : (LetterSet.ofPattern pattern).lowest? = some lowest) :
    compile pattern = .ok ⟨lowest, .ofPattern pattern, f⟩ := by
  obtain ⟨letters, hletters, hperm⟩ := h.fields
  exact compile_of_letters hf hletters hperm hl

end NamePattern

end Almanac
