import Almanac.Proofs.Date.YearEnd
import Almanac.Proofs.Decimal
import Almanac.Proofs.ZonedTime.Period
import Almanac.Rfc3339

namespace Almanac

namespace Rfc3339

open Decimal

variable {width n nano : Nat} {offset : Int} {rest : List Char} {t : ZonedTime}

/-- The offset that the text of an offset stands for, the nearest whole minute and of two the one
further from UTC. -/
def printedOffset (offset : Int) : Int := offset.sign * ((offset.natAbs + 30) / 60 * 60 : Nat)

theorem printedOffset_eq_iff : printedOffset offset = offset ↔ 60 ∣ offset := by
  unfold printedOffset
  rcases Int.lt_trichotomy offset 0 with h | rfl | h
  · rw [Int.sign_eq_neg_one_of_neg h]
    omega
  · decide
  · rw [Int.sign_eq_one_of_pos h]
    omega

theorem number?_padded (hw : 0 < width) (hn : n < 10 ^ width) :
    number? width (padded width n ++ rest) = some ((n : Int), rest) := by
  have hlength := length_padded_eq hw hn
  have hrun : runLength (padded width n) = width := by
    rw [runLength, List.takeWhile_eq_self_iff.2 fun c ↦ isDigit_of_mem_padded, hlength]
  simp [number?, List.take_left' hlength, List.drop_left' hlength, if_pos hrun]

theorem number?_padded_toNat {value : Int} (hw : 0 < width) (h : 0 ≤ value)
    (hn : value.toNat < 10 ^ width) :
    number? width (padded width value.toNat ++ rest) = some (value, rest) := by
  rw [number?_padded hw hn, Int.toNat_of_nonneg h]

@[simp] theorem skip?_cons (c : Char) (rest : List Char) :
    skip? c (c :: rest) = some rest := if_pos rfl

@[simp] theorem skipSeparator?_cons (rest : List Char) :
    skipSeparator? ('T' :: rest) = some rest := rfl

theorem fraction?_padded (hw : 0 < width) (hm : width ≤ 9) (hn : n < 10 ^ width)
    (hv : 10 ^ (9 - width) * n = nano) (hr : ∀ c ∈ rest.head?, ¬ c.isDigit) :
    fraction? ('.' :: padded width n ++ rest) = some (nano, rest) := by
  have hlength := length_padded_eq hw hn
  have hdigits : ∀ c ∈ padded width n, c.isDigit := fun c ↦ isDigit_of_mem_padded
  have htake : rest.takeWhile Char.isDigit = [] := List.length_eq_zero_iff.1 (runLength_eq_zero hr)
  have hdrop : rest.dropWhile Char.isDigit = rest := by
    have := List.takeWhile_append_dropWhile (p := Char.isDigit) (l := rest)
    rwa [htake] at this
  have hsome : (padded width n).isEmpty = false := by
    rw [List.isEmpty_eq_false_iff_exists_mem]
    exact List.exists_mem_of_length_pos (by omega)
  simp only [fraction?, List.cons_append]
  rw [List.takeWhile_append_of_pos hdigits, List.dropWhile_append_of_pos hdigits, htake, hdrop,
    List.append_nil, hsome, List.take_of_length_le (by omega), value_rightpad_zero, value_padded,
    hlength, hv]
  rfl

theorem fraction?_fractionText (hn : nano < 1000000000)
    (hr : ∀ c ∈ rest.head?, ¬ c.isDigit ∧ c ≠ '.') :
    fraction? (Reading.fractionText nano ++ rest) = some (nano, rest) := by
  have hdigit : ∀ c ∈ rest.head?, ¬ c.isDigit := fun c hc ↦ (hr c hc).1
  unfold Reading.fractionText
  split
  · rename_i hzero
    subst hzero
    rw [List.nil_append]
    unfold fraction?
    split
    · exact absurd rfl (hr '.' rfl).2
    · rfl
  split
  · exact fraction?_padded (by decide) (by decide) (by omega) (by omega) hdigit
  split
  · exact fraction?_padded (by decide) (by decide) (by omega) (by omega) hdigit
  · exact fraction?_padded (by decide) (by decide) (by omega) (by omega) hdigit

theorem offset?_cons {sign : Char} {cs : List Char} (h : cs ≠ []) : offset? (sign :: cs) = (do
    let (hours, cs) ← number? 2 cs
    let (minutes, cs) ← number? 2 (← skip? ':' cs)
    if cs ≠ [] ∨ 23 < hours ∨ 59 < minutes then none
    else if sign = '+' then some (hours * 3600 + minutes * 60)
    else if sign = '-' ∨ sign = '−' then some (-(hours * 3600 + minutes * 60))
    else none) := by
  unfold offset?
  split
  · simp_all
  · simp_all
  · rename_i heq
    obtain ⟨rfl, rfl⟩ := List.cons.inj heq
    rfl
  · simp_all

theorem offset?_offsetText (h₁ : -86370 < offset) (h₂ : offset < 86370) :
    offset? (offsetText offset) = some (printedOffset offset) := by
  unfold offsetText
  split
  · rename_i hzero
    subst hzero
    rfl
  have hsome : padded 2 ((offset.natAbs + 30) / 60 / 60) ++
      ':' :: padded 2 ((offset.natAbs + 30) / 60 % 60) ≠ [] :=
    List.append_ne_nil_of_right_ne_nil _ (List.cons_ne_nil _ _)
  have hminutes := @number?_padded 2 ((offset.natAbs + 30) / 60 % 60) [] (by decide) (by omega)
  rw [List.append_nil] at hminutes
  have hfits : ¬ (([] : List Char) ≠ [] ∨ (23 : Int) < ((offset.natAbs + 30) / 60 / 60 : Nat) ∨
      (59 : Int) < ((offset.natAbs + 30) / 60 % 60 : Nat)) := by
    rintro (h | h)
    · exact h rfl
    · omega
  simp only [List.cons_append]
  rw [offset?_cons hsome, number?_padded (by decide) (by omega)]
  simp only [Option.bind_eq_bind, Option.bind_some, skip?_cons, hminutes]
  rw [if_neg hfits]
  unfold printedOffset
  by_cases hneg : offset < 0
  · simp only [if_pos hneg, Int.sign_eq_neg_one_of_neg hneg]
    rw [if_neg (by decide), if_pos (.inl trivial), Option.some.injEq]
    omega
  · simp only [if_neg hneg, Int.sign_eq_one_of_pos (show 0 < offset by omega)]
    rw [if_pos trivial, Option.some.injEq]
    omega

theorem head_offsetText (offset : Int) :
    ∀ c ∈ (offsetText offset).head?, ¬ c.isDigit ∧ c ≠ '.' := by
  intro c hc
  unfold offsetText at hc
  split at hc
  · obtain rfl := Option.some.inj hc
    decide
  · split at hc
    all_goals
      obtain rfl := Option.some.inj hc
      decide

theorem read?_text {wall : Reading} (hl : ¬ wall.IsLeapSecond)
    (hy : 0 ≤ wall.date.year ∧ wall.date.year ≤ 9999) (h₁ : -86370 < offset) (h₂ : offset < 86370) :
    read? (String.ofList (wall.text 'T' ++ offsetText offset)) =
    some (wall.shift (-printedOffset offset)) := by
  obtain ⟨hm₁, hm₂, -⟩ := wall.date.month_bounds
  obtain ⟨hd₁, -⟩ := wall.date.day_bounds
  have hd₂ := wall.date.day_le
  have hh := wall.hour_bounds
  have hmin := wall.minute_bounds
  have hs := wall.secondOfMinute_bounds
  have hc : wall.date.InCalendar :=
    Date.inCalendar_iff_year.2 (by unfold Date.minYear Date.maxYear; omega)
  have hyear (rest : List Char) := @number?_padded_toNat 4 rest _ (by decide) hy.1 (by omega)
  have hmonth (rest : List Char) :=
    @number?_padded_toNat 2 rest wall.date.month (by decide) (by omega) (by omega)
  have hday (rest : List Char) :=
    @number?_padded_toNat 2 rest wall.date.day (by decide) (by omega) (by omega)
  have hhour (rest : List Char) := @number?_padded_toNat 2 rest _ (by decide) hh.1 (by omega)
  have hminute (rest : List Char) := @number?_padded_toNat 2 rest _ (by decide) hmin.1 (by omega)
  have hsecond (rest : List Char) := @number?_padded_toNat 2 rest _ (by decide) hs.1 (by omega)
  have hfraction := @fraction?_fractionText _ (offsetText offset) (Reading.nano_lt hl)
    (head_offsetText offset)
  unfold Reading.text Date.text Date.yearText Reading.timeText
  rw [if_pos hy]
  simp only [if_neg hl, List.append_assoc, List.cons_append, Nat.add_zero]
  rw [read?, String.toList_ofList]
  -- Each part is read off the front of what the parts before it have left.
  refine Option.bind_eq_some_iff.2 ⟨_, hyear _, ?_⟩
  refine Option.bind_eq_some_iff.2 ⟨_, skip?_cons _ _, ?_⟩
  refine Option.bind_eq_some_iff.2 ⟨_, hmonth _, ?_⟩
  refine Option.bind_eq_some_iff.2 ⟨_, skip?_cons _ _, ?_⟩
  refine Option.bind_eq_some_iff.2 ⟨_, hday _, ?_⟩
  refine Option.bind_eq_some_iff.2 ⟨_, skipSeparator?_cons _, ?_⟩
  refine Option.bind_eq_some_iff.2 ⟨_, hhour _, ?_⟩
  refine Option.bind_eq_some_iff.2 ⟨_, skip?_cons _ _, ?_⟩
  refine Option.bind_eq_some_iff.2 ⟨_, hminute _, ?_⟩
  refine Option.bind_eq_some_iff.2 ⟨_, skip?_cons _ _, ?_⟩
  refine Option.bind_eq_some_iff.2 ⟨_, hsecond _, ?_⟩
  refine Option.bind_eq_some_iff.2 ⟨_, hfraction, ?_⟩
  refine Option.bind_eq_some_iff.2 ⟨_, offset?_offsetText h₁ h₂, ?_⟩
  refine Option.bind_eq_some_iff.2 ⟨_, Date.ofYmd?_year_month_day hc, ?_⟩
  rw [if_neg (by omega), if_neg (by omega)]
  change some ((Reading.ofDate wall.date
    (wall.hour * 3600 + wall.minute * 60 + wall.secondOfMinute - 0)
    wall.nano).shift (-printedOffset offset)) = _
  simp [← Reading.secondOfDay_eq]

end Rfc3339

end Almanac
