import Almanac.Date.Shift
import Almanac.Proofs.DateField
import Almanac.Proofs.Date.YearEnd

namespace Almanac.Date

variable {d : Date}

theorem monthLength_pos {year month : Int} (h₁ : 1 ≤ month) (h₂ : month ≤ 12) :
    1 ≤ monthLength year month := by
  have := @monthLength_bounds year month h₁ h₂
  omega

def firstOfMonth (index : Int) : Date := ofYmd (index / 12) (index % 12 + 1) 1

@[simp] theorem year_firstOfMonth (index : Int) : (firstOfMonth index).year = index / 12 :=
  year_ofYmd (by omega) (by omega) (by decide) (monthLength_pos (by omega) (by omega))

@[simp] theorem month_firstOfMonth (index : Int) : (firstOfMonth index).month = index % 12 + 1 :=
  month_ofYmd (by omega) (by omega) (by decide) (monthLength_pos (by omega) (by omega))

@[simp] theorem day_firstOfMonth (index : Int) : (firstOfMonth index).day = 1 :=
  day_ofYmd (by omega) (by omega) (by decide) (monthLength_pos (by omega) (by omega))

@[simp] theorem monthIndex_firstOfMonth (index : Int) :
    (firstOfMonth index).monthIndex = index := by
  rw [monthIndex, year_firstOfMonth, month_firstOfMonth]
  omega

@[simp] theorem monthIndex_ediv (d : Date) : d.monthIndex / 12 = d.year := by
  have hm := month_bounds d
  unfold monthIndex
  omega

@[simp] theorem monthIndex_emod (d : Date) : d.monthIndex % 12 + 1 = d.month := by
  have hm := month_bounds d
  unfold monthIndex
  omega

theorem firstOfMonth_succ (index : Int) :
    (firstOfMonth (index + 1)).epochDay =
    (firstOfMonth index).epochDay + monthLength (index / 12) (index % 12 + 1) := by
  simp only [firstOfMonth, ofYmd_epochDay, monthLength]
  by_cases h : index % 12 = 11
  · have hyear : (index + 1) / 12 = index / 12 + 1 := by omega
    have hmonth : (index + 1) % 12 + 1 = 1 := by omega
    have hs := yearStart_succ (index / 12)
    rw [hyear, hmonth, h, daysBefore_one, show (11 : Int) + 1 + 1 = 13 by decide,
      daysBefore_thirteen]
    omega
  · have hyear : (index + 1) / 12 = index / 12 := by omega
    have hmonth : (index + 1) % 12 = index % 12 + 1 := by omega
    rw [hyear, hmonth]
    omega

theorem firstOfMonth_lt_succ (index : Int) :
    (firstOfMonth index).epochDay < (firstOfMonth (index + 1)).epochDay := by
  have hl := @monthLength_pos (index / 12) (index % 12 + 1) (by omega) (by omega)
  rw [firstOfMonth_succ]
  omega

theorem firstOfMonth_add_le (index : Int) (n : Nat) :
    (firstOfMonth index).epochDay ≤ (firstOfMonth (index + n)).epochDay := by
  induction n with
  | zero => simp
  | succ n ih =>
    have h := firstOfMonth_lt_succ (index + n)
    rw [Int.natCast_succ, ← Int.add_assoc]
    omega

theorem firstOfMonth_bounds (d : Date) :
    (firstOfMonth d.monthIndex).epochDay ≤ d.epochDay ∧
    d.epochDay < (firstOfMonth (d.monthIndex + 1)).epochDay := by
  have hd := day_bounds d
  have he : d.epochDay = yearStart d.year + daysBefore d.year d.month + d.day - 1 :=
    (congrArg epochDay (ofYmd_year_month_day d)).symm
  rw [firstOfMonth_succ, monthIndex_ediv, monthIndex_emod, firstOfMonth, monthIndex_ediv,
    monthIndex_emod, ofYmd_epochDay]
  omega

theorem monthIndex_le {a b : Date} (h : a.epochDay ≤ b.epochDay) : a.monthIndex ≤ b.monthIndex := by
  have ha := firstOfMonth_bounds a
  have hb := firstOfMonth_bounds b
  by_contra hlt
  have hle := firstOfMonth_add_le (b.monthIndex + 1) (a.monthIndex - (b.monthIndex + 1)).toNat
  rw [show b.monthIndex + 1 + ((a.monthIndex - (b.monthIndex + 1)).toNat : Int) = a.monthIndex by
    omega] at hle
  omega

theorem firstOfMonth_le_iff {index : Int} :
    (firstOfMonth index).epochDay ≤ d.epochDay ↔ index ≤ d.monthIndex := by
  refine ⟨fun h ↦ ?_, fun h ↦ ?_⟩
  · rw [← monthIndex_firstOfMonth index]
    exact monthIndex_le h
  · have hle := firstOfMonth_add_le index (d.monthIndex - index).toNat
    rw [show index + ((d.monthIndex - index).toNat : Int) = d.monthIndex by omega] at hle
    exact Int.le_trans hle (firstOfMonth_bounds d).1

theorem ofYmd?_firstOfMonth (index : Int) :
    ofYmd? (index / 12) (index % 12 + 1) 1 = (firstOfMonth index).covered? :=
  ofYmd?_eq (by omega) (by omega) (by decide) (monthLength_pos (by omega) (by omega))

theorem inCalendar_of_covered? {date : Date} (h : d.covered? = some date) :
    d.InCalendar ∧ date = d := by
  unfold covered? at h
  split at h
  · rename_i hc
    exact ⟨hc, (Option.some.inj h).symm⟩
  · cases h

theorem inCalendar_of_ofYmd? {date : Date} {year month day : Int}
    (h : ofYmd? year month day = some date) :
    date.InCalendar := by
  unfold ofYmd? at h
  split at h
  · obtain ⟨hc, rfl⟩ := inCalendar_of_covered? h
    exact hc
  · cases h

theorem inCalendar_of_ofYearDay? {date : Date} {year dayOfYear : Int}
    (h : ofYearDay? year dayOfYear = some date) :
    date.InCalendar := by
  unfold ofYearDay? at h
  split at h
  · obtain ⟨hc, rfl⟩ := inCalendar_of_covered? h
    exact hc
  · cases h

theorem year_month_day_of_ofYmd? {date : Date} {year month day : Int}
    (h : ofYmd? year month day = some date) :
    date.year = year ∧ date.month = month ∧ date.day = day := by
  unfold ofYmd? at h
  split at h
  · rename_i hv
    obtain ⟨-, rfl⟩ := inCalendar_of_covered? h
    obtain ⟨hm₁, hm₂, hd₁, hd₂⟩ := hv
    exact ⟨year_ofYmd hm₁ hm₂ hd₁ hd₂, month_ofYmd hm₁ hm₂ hd₁ hd₂, day_ofYmd hm₁ hm₂ hd₁ hd₂⟩
  · cases h

theorem ofYmd?_eq_none {year : Int} (h : year < minYear ∨ maxYear < year) (month day : Int) :
    ofYmd? year month day = none := by
  by_contra hne
  obtain ⟨date, hdate⟩ := Option.ne_none_iff_exists'.1 hne
  obtain ⟨hyear, -⟩ := year_month_day_of_ofYmd? hdate
  have hcovered := inCalendar_iff_year.1 (inCalendar_of_ofYmd? hdate)
  omega

theorem year_dayOfYear_of_ofYearDay? {date : Date} {year dayOfYear : Int}
    (h : ofYearDay? year dayOfYear = some date) :
    date.year = year ∧ date.dayOfYear = dayOfYear := by
  unfold ofYearDay? at h
  split at h
  · rename_i hday
    obtain ⟨-, rfl⟩ := inCalendar_of_covered? h
    have hnext := yearStart_succ year
    have hyear : (⟨yearStart year + dayOfYear - 1⟩ : Date).year = year := by
      apply year_eq_of_bounds <;> simp only <;> omega
    refine ⟨hyear, ?_⟩
    rw [Date.dayOfYear, hyear]
    simp only
    omega
  · cases h

theorem monthIndex_of_inMonth? {date : Date} {index : Int} (h : d.inMonth? index = some date) :
    date.monthIndex = index ∧ date.InCalendar := by
  have hm₁ : 1 ≤ index % 12 + 1 := by omega
  have hm₂ : index % 12 + 1 ≤ 12 := by omega
  have hl := @monthLength_pos (index / 12) (index % 12 + 1) hm₁ hm₂
  have hd := day_bounds d
  have hday₁ : 1 ≤ min d.day (monthLength (index / 12) (index % 12 + 1)) := by omega
  have hday₂ : min d.day (monthLength (index / 12) (index % 12 + 1)) ≤
      monthLength (index / 12) (index % 12 + 1) :=
    Int.min_le_right _ _
  rw [inMonth?, ofYmd?_eq hm₁ hm₂ hday₁ hday₂] at h
  obtain ⟨hc, rfl⟩ := inCalendar_of_covered? h
  refine ⟨?_, hc⟩
  rw [monthIndex, year_ofYmd hm₁ hm₂ hday₁ hday₂, month_ofYmd hm₁ hm₂ hday₁ hday₂]
  omega

theorem addMonths?_firstOfMonth (index amount : Int) :
    (firstOfMonth index).addMonths? amount = (firstOfMonth (index + amount)).covered? := by
  have hl := @monthLength_pos ((index + amount) / 12) ((index + amount) % 12 + 1)
    (by omega) (by omega)
  simp [addMonths?, inMonth?, Int.min_eq_left hl, ofYmd?_firstOfMonth]

@[simp] theorem monthsUntil_firstOfMonth (start stop : Int) :
    (firstOfMonth start).monthsUntil (firstOfMonth stop) = stop - start := by
  rw [monthsUntil, monthIndex_firstOfMonth, monthIndex_firstOfMonth, day_firstOfMonth,
    day_firstOfMonth,
    show stop * 32 + 1 - (start * 32 + 1) = (stop - start) * 32 by
      omega, Int.mul_tdiv_cancel _ (by decide)]

end Almanac.Date
