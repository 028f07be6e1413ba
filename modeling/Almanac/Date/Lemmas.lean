import Almanac.Date

namespace Almanac.Date

theorem yearStart_cycles (e c q y : Int) (hc : 0 ≤ c ∧ c ≤ 3) (hq : 0 ≤ q ∧ q ≤ 24)
    (hy : 0 ≤ y ∧ y ≤ 3) :
    yearStart (400 * e + 100 * c + 4 * q + y + 1) =
      yearStart 1 + 146097 * e + 36524 * c + 1461 * q + 365 * y := by
  unfold yearStart
  omega

theorem isLeap_cycles (e c q y : Int) (hc : 0 ≤ c ∧ c ≤ 3) (hq : 0 ≤ q ∧ q ≤ 24)
    (hy : 0 ≤ y ∧ y ≤ 3) :
    IsLeap (400 * e + 100 * c + 4 * q + y + 1) ↔ y = 3 ∧ (q < 24 ∨ c = 3) := by
  unfold IsLeap
  omega

theorem yearStart_succ (year : Int) : yearStart (year + 1) = yearStart year + yearLength year := by
  unfold yearStart yearLength
  split <;> rename_i h <;> unfold IsLeap at h <;> omega

theorem yearLength_bounds (year : Int) : 365 ≤ yearLength year ∧ yearLength year ≤ 366 := by
  unfold yearLength
  split <;> decide

theorem year_bounds (d : Date) :
    yearStart d.year ≤ d.epochDay ∧ d.epochDay < yearStart (d.year + 1) := by
  rw [yearStart_succ]
  unfold year
  simp only
  rw [yearStart_cycles _ _ _ _ (by omega) (by omega) (by omega), yearLength]
  split <;> rename_i h <;> rw [isLeap_cycles _ _ _ _ (by omega) (by omega) (by omega)] at h <;>
    omega

theorem yearStart_add_le (year : Int) (n : Nat) :
    yearStart year + 365 * n ≤ yearStart (year + n) := by
  induction n with
  | zero => simp
  | succ n ih =>
    have h := yearStart_succ (year + n)
    have := yearLength_bounds (year + n)
    rw [Int.natCast_succ, ← Int.add_assoc, h]
    omega

theorem yearStart_lt_yearStart {a b : Int} (h : a < b) : yearStart a < yearStart b := by
  have := yearStart_add_le a (b - a).toNat
  rw [show a + ((b - a).toNat : Int) = b by omega] at this
  omega

theorem year_eq_of_bounds {d : Date} {year : Int} (h₁ : yearStart year ≤ d.epochDay)
    (h₂ : d.epochDay < yearStart (year + 1)) : d.year = year := by
  obtain ⟨l, u⟩ := year_bounds d
  rcases Int.lt_trichotomy d.year year with h | h | h
  · rcases Int.lt_or_eq_of_le (Int.add_one_le_of_lt h) with h | h
    · have := yearStart_lt_yearStart h; omega
    · rw [h] at u; omega
  · exact h
  · rcases Int.lt_or_eq_of_le (Int.add_one_le_of_lt h) with h | h
    · have := yearStart_lt_yearStart h; omega
    · rw [← h] at l; omega

theorem dayOfYear_bounds (d : Date) : 1 ≤ d.dayOfYear ∧ d.dayOfYear ≤ yearLength d.year := by
  have := year_bounds d
  rw [yearStart_succ] at this
  unfold dayOfYear
  omega

@[simp] theorem daysBefore_thirteen (year : Int) : daysBefore year 13 = yearLength year := by
  unfold daysBefore yearLength
  split <;> split <;> simp_all

theorem month_bounds (d : Date) :
    1 ≤ d.month ∧ d.month ≤ 12 ∧ daysBefore d.year d.month < d.dayOfYear ∧
    d.dayOfYear ≤ daysBefore d.year (d.month + 1) := by
  have h := dayOfYear_bounds d
  unfold month
  simp only
  generalize d.dayOfYear = n at *
  generalize d.year = y at *
  by_cases hl : IsLeap y
  · simp only [daysBefore, yearLength, hl, if_true] at *
    refine ⟨?_, ?_, ?_, ?_⟩ <;> split <;> omega
  · simp only [daysBefore, yearLength, hl, if_false] at *
    refine ⟨?_, ?_, ?_, ?_⟩ <;> split <;> omega

theorem day_bounds (d : Date) : 1 ≤ d.day ∧ d.day ≤ monthLength d.year d.month := by
  have := month_bounds d
  unfold day monthLength
  omega

@[simp] theorem ofYmd_year_month_day (d : Date) : ofYmd d.year d.month d.day = d := by
  unfold ofYmd day dayOfYear
  cases d
  simp only [mk.injEq]
  omega

theorem daysBefore_bounds (year : Int) {month : Int} (h₁ : 1 ≤ month) (h₂ : month ≤ 12) :
    0 ≤ daysBefore year month ∧ daysBefore year month < daysBefore year (month + 1) ∧
      daysBefore year (month + 1) ≤ yearLength year := by
  by_cases hl : IsLeap year
  · simp only [daysBefore, yearLength, hl, if_true]
    refine ⟨?_, ?_, ?_⟩ <;> repeat' split
    all_goals omega
  · simp only [daysBefore, yearLength, hl, if_false]
    refine ⟨?_, ?_, ?_⟩ <;> repeat' split
    all_goals omega

/-- Year, month and day that name a day of a month are those of the day they determine. -/
theorem year_ofYmd {year month day : Int} (hm₁ : 1 ≤ month) (hm₂ : month ≤ 12) (hd₁ : 1 ≤ day)
    (hd₂ : day ≤ monthLength year month) : (ofYmd year month day).year = year := by
  have := daysBefore_bounds year hm₁ hm₂
  unfold monthLength at hd₂
  apply year_eq_of_bounds
  · unfold ofYmd; simp only; omega
  · rw [yearStart_succ]; unfold ofYmd; simp only; omega

theorem dayOfYear_ofYmd {year month day : Int} (hm₁ : 1 ≤ month) (hm₂ : month ≤ 12) (hd₁ : 1 ≤ day)
    (hd₂ : day ≤ monthLength year month) :
    (ofYmd year month day).dayOfYear = daysBefore year month + day := by
  rw [dayOfYear, year_ofYmd hm₁ hm₂ hd₁ hd₂]
  unfold ofYmd
  simp only
  omega

theorem month_ofYmd {year month day : Int} (hm₁ : 1 ≤ month) (hm₂ : month ≤ 12) (hd₁ : 1 ≤ day)
    (hd₂ : day ≤ monthLength year month) : (ofYmd year month day).month = month := by
  unfold Date.month
  rw [dayOfYear_ofYmd hm₁ hm₂ hd₁ hd₂, year_ofYmd hm₁ hm₂ hd₁ hd₂]
  unfold monthLength at hd₂
  by_cases hl : IsLeap year
  · simp only [daysBefore, hl, if_true] at *
    split <;> (repeat' split at hd₂) <;> (repeat' split) <;> omega
  · simp only [daysBefore, hl, if_false] at *
    split <;> (repeat' split at hd₂) <;> (repeat' split) <;> omega

theorem day_ofYmd {year month day : Int} (hm₁ : 1 ≤ month) (hm₂ : month ≤ 12) (hd₁ : 1 ≤ day)
    (hd₂ : day ≤ monthLength year month) : (ofYmd year month day).day = day := by
  rw [Date.day, dayOfYear_ofYmd hm₁ hm₂ hd₁ hd₂, month_ofYmd hm₁ hm₂ hd₁ hd₂,
    year_ofYmd hm₁ hm₂ hd₁ hd₂]
  omega

end Almanac.Date
