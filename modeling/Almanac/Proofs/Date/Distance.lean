import Almanac.Proofs.Date.Months

namespace Almanac.Date

variable {d e date : Date} {amount : Int}

theorem epochDay_eq_firstOfMonth (d : Date) :
    d.epochDay = (firstOfMonth d.monthIndex).epochDay + d.day - 1 := by
  have h := congrArg epochDay (ofYmd_year_month_day d)
  rw [ofYmd_epochDay] at h
  rw [firstOfMonth, monthIndex_ediv, monthIndex_emod, ofYmd_epochDay]
  omega

theorem eq_of_monthIndex_eq (hm : d.monthIndex = e.monthIndex) (hd : d.day = e.day) : d = e := by
  have hfirst := epochDay_eq_firstOfMonth d
  have hfirst' := epochDay_eq_firstOfMonth e
  rw [hm, hd] at hfirst
  exact eq_of_epochDay_eq (hfirst.trans hfirst'.symm)

/-- The place of a day on the scale that gives each month thirty-two places. -/
def place (d : Date) : Int := d.monthIndex * 32 + d.day

theorem place_lt_place (h : d.epochDay < e.epochDay) : d.place < e.place := by
  have hm := monthIndex_le (Int.le_of_lt h)
  have hd := d.day_le
  have he := day_bounds e
  unfold place
  rcases Int.lt_or_eq_of_le hm with hlt | heq
  · omega
  · have hd' := epochDay_eq_firstOfMonth d
    have he' := epochDay_eq_firstOfMonth e
    rw [heq] at hd' ⊢
    omega

theorem lt_iff_place : d < e ↔ d.place < e.place := by
  refine ⟨place_lt_place, fun h ↦ ?_⟩
  by_contra hle
  rcases Int.lt_or_eq_of_le (Int.not_lt.1 hle) with hlt | heq
  · have := place_lt_place hlt
    omega
  · rw [eq_of_epochDay_eq heq] at h
    exact Int.lt_irrefl _ h

theorem le_iff_place : d ≤ e ↔ d.place ≤ e.place := by
  have h : d ≤ e ↔ ¬ e < d := Int.not_lt.symm
  rw [h, lt_iff_place, Int.not_lt]

theorem day_of_inMonth? {index : Int} (h : d.inMonth? index = some date) :
    date.day = min d.day (monthLength (index / 12) (index % 12 + 1)) := by
  have hm₁ : 1 ≤ index % 12 + 1 := by omega
  have hm₂ : index % 12 + 1 ≤ 12 := by omega
  have hl := @monthLength_pos (index / 12) (index % 12 + 1) hm₁ hm₂
  have hd := day_bounds d
  rw [eq_ofYmd_of_ofYmd? h]
  exact day_ofYmd hm₁ hm₂ (by omega) (Int.min_le_right _ _)

def Clamps (d : Date) (months : Int) : Prop :=
  monthLength ((d.monthIndex + months) / 12) ((d.monthIndex + months) % 12 + 1) < d.day

instance (d : Date) (months : Int) : Decidable (d.Clamps months) :=
  inferInstanceAs (Decidable (monthLength _ _ < d.day))

theorem place_addMonths?_le (h : d.addMonths? amount = some date) :
    date.place ≤ d.place + 32 * amount := by
  have hi := (monthIndex_of_inMonth? h).1
  have hd := day_of_inMonth? h
  unfold place
  omega

theorem place_addMonths?_eq (h : d.addMonths? amount = some date) (hc : ¬ d.Clamps amount) :
    date.place = d.place + 32 * amount := by
  have hi := (monthIndex_of_inMonth? h).1
  have hd := day_of_inMonth? h
  unfold Clamps at hc
  unfold place
  omega

/-- A day that is moved far enough on the scale reaches each day before that place, even if it is
moved to the end of a shorter month. -/
theorem le_addMonths? (h : d.addMonths? amount = some date) (he : e.place ≤ d.place + 32 * amount) :
    e ≤ date := by
  have hi := (monthIndex_of_inMonth? h).1
  have hd := day_of_inMonth? h
  have hday := d.day_le
  have he₁ := day_bounds e
  have he₂ := e.day_le
  have hyear := monthIndex_ediv e
  have hmonth := monthIndex_emod e
  rw [le_iff_place]
  unfold place at *
  rcases Int.lt_or_le e.monthIndex date.monthIndex with hlt | hle
  · have := day_bounds date
    omega
  · have heq : e.monthIndex = d.monthIndex + amount := by omega
    rw [← heq, hyear, hmonth] at hd
    omega

theorem monthsUntil_eq (d e : Date) : d.monthsUntil e = (e.place - d.place).tdiv 32 := rfl

end Almanac.Date
