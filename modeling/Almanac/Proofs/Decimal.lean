import Almanac.Decimal
import Mathlib.Algebra.Group.Nat.Defs
import Mathlib.Data.List.TakeWhile

namespace Almanac.Decimal

variable {width most n : Nat} {cs ds rest : List Char}

theorem isDigit_of_mem_padded {c : Char} (h : c ∈ padded width n) : c.isDigit := by
  rw [padded, List.leftpad, List.mem_append] at h
  rcases h with h | h
  · rw [List.eq_of_mem_replicate h]
    decide
  · exact isDigit_of_mem_digits h

theorem length_padded_le (hw : width ≤ most) (hm : 0 < most) (hn : n < 10 ^ most) :
    (padded width n).length ≤ most := by
  rw [length_padded]
  exact Nat.max_le.2 ⟨hw, (Nat.length_toDigits_le_iff (by decide) hm).2 hn⟩

theorem le_length_padded (width n : Nat) : width ≤ (padded width n).length := by
  rw [length_padded]
  exact Nat.le_max_left width (digits n).length

theorem length_padded_eq (hw : 0 < width) (hn : n < 10 ^ width) : (padded width n).length = width :=
  Nat.le_antisymm (length_padded_le (Nat.le_refl _) hw hn) (le_length_padded width n)

theorem length_padded_pos (width n : Nat) : 0 < (padded width n).length := by
  rw [length_padded]
  exact Nat.lt_of_lt_of_le Nat.length_toDigits_pos (Nat.le_max_right _ _)

theorem runLength_append (h : ∀ c ∈ ds, c.isDigit) :
    runLength (ds ++ rest) = ds.length + runLength rest := by
  rw [runLength, List.takeWhile_append_of_pos h, List.length_append, runLength]

theorem runLength_eq_zero (h : ∀ c ∈ cs.head?, ¬ c.isDigit) : runLength cs = 0 := by
  cases cs with
  | nil => rfl
  | cons c cs =>
    have hc : c.isDigit = false := by simpa using h c rfl
    simp [runLength, hc]

theorem isDigit_of_mem_take {count : Nat} (h : count ≤ runLength cs) :
    ∀ c ∈ cs.take count, c.isDigit := by
  have hbegins : cs.take count <+: cs.takeWhile Char.isDigit := by
    apply List.prefix_of_prefix_length_le (List.take_prefix count cs)
      (List.takeWhile_prefix Char.isDigit)
    exact Nat.le_trans (List.length_take_le count cs) h
  intro c hc
  exact List.mem_takeWhile_imp (hbegins.subset hc)

theorem runLength_le_length (cs : List Char) : runLength cs ≤ cs.length :=
  (List.takeWhile_prefix Char.isDigit).length_le

theorem value_append (cs ds : List Char) :
    value (cs ++ ds) = 10 ^ ds.length * value cs + value ds := by
  rw [value, Nat.ofDigitChars_append, Nat.ofDigitChars_eq_ofDigitChars_zero]
  rfl

theorem digit_le_nine {c : Char} (h : c.isDigit) : c.toNat - '0'.toNat ≤ 9 := by
  rw [Char.isDigit, Bool.and_eq_true, decide_eq_true_eq, decide_eq_true_eq] at h
  have h' : c.toNat ≤ 57 := h.2
  change c.toNat - 48 ≤ 9
  omega

theorem digit_inj {c d : Char} (hc : c.isDigit) (hd : d.isDigit)
    (h : c.toNat - '0'.toNat = d.toNat - '0'.toNat) :
    c = d := by
  rw [Char.isDigit, Bool.and_eq_true, decide_eq_true_eq, decide_eq_true_eq] at hc hd
  have hc' : 48 ≤ c.toNat := hc.1
  have hd' : 48 ≤ d.toNat := hd.1
  change c.toNat - 48 = d.toNat - 48 at h
  exact Char.toNat_inj.1 (by omega)

theorem value_cons (c : Char) (cs : List Char) :
    value (c :: cs) = 10 ^ cs.length * (c.toNat - '0'.toNat) + value cs := by
  rw [value, Nat.ofDigitChars_cons, Nat.ofDigitChars_eq_ofDigitChars_zero]
  simp [value]

theorem value_lt (h : ∀ c ∈ cs, c.isDigit) : value cs < 10 ^ cs.length := by
  induction cs with
  | nil => decide
  | cons c cs ih =>
    have hc := digit_le_nine (h c (by simp))
    have hcs := ih (fun x hx ↦ h x (by simp [hx]))
    rw [value_cons, List.length_cons, Nat.pow_succ]
    calc 10 ^ cs.length * (c.toNat - '0'.toNat) + value cs
        < 10 ^ cs.length * 9 + 10 ^ cs.length :=
          Nat.add_lt_add_of_le_of_lt (Nat.mul_le_mul_left _ hc) hcs
      _ = 10 ^ cs.length * 10 := by omega

theorem eq_of_value_eq (hc : ∀ c ∈ cs, c.isDigit) (hd : ∀ c ∈ ds, c.isDigit)
    (hlength : cs.length = ds.length) (h : value cs = value ds) : cs = ds := by
  induction cs generalizing ds with
  | nil => exact (List.length_eq_zero_iff.1 hlength.symm).symm
  | cons c cs ih =>
    cases ds with
    | nil => cases hlength
    | cons d ds =>
      have hcs := value_lt fun x hx ↦ hc x (List.mem_cons_of_mem _ hx)
      have hds := value_lt fun x hx ↦ hd x (List.mem_cons_of_mem _ hx)
      have hsame : cs.length = ds.length := Nat.succ.inj hlength
      rw [value_cons, value_cons, hsame] at h
      rw [hsame] at hcs
      have hpos : 0 < 10 ^ ds.length := Nat.pow_pos (by decide)
      have hdigit := congrArg (· / 10 ^ ds.length) h
      simp only [Nat.mul_add_div hpos, Nat.div_eq_of_lt hcs, Nat.div_eq_of_lt hds,
        Nat.add_zero] at hdigit
      rw [hdigit] at h
      rw [digit_inj (hc c List.mem_cons_self) (hd d List.mem_cons_self) hdigit,
        ih (fun x hx ↦ hc x (List.mem_cons_of_mem _ hx))
        (fun x hx ↦ hd x (List.mem_cons_of_mem _ hx)) hsame
          (Nat.add_left_cancel h)]

theorem value_rightpad_zero (width : Nat) (cs : List Char) :
    value (cs.rightpad width '0') = 10 ^ (width - cs.length) * value cs := by
  have h : value (List.replicate (width - cs.length) '0') = 0 := by
    simp [value, Nat.ofDigitChars_replicate_zero]
  rw [List.rightpad, value_append, List.length_replicate, h, Nat.add_zero]

theorem value_take_padded {total : Nat} (hn : n < 10 ^ total) (ht : 0 < total) :
    value ((padded total n).take width) = n / 10 ^ (total - width) := by
  have hlen := length_padded_eq ht hn
  have hsplit := value_append ((padded total n).take width) ((padded total n).drop width)
  rw [List.take_append_drop, value_padded, List.length_drop, hlen] at hsplit
  have hlt : value ((padded total n).drop width) < 10 ^ (total - width) := by
    have h : ∀ c ∈ (padded total n).drop width, c.isDigit :=
      fun c hc ↦ isDigit_of_mem_padded (List.mem_of_mem_drop hc)
    simpa only [List.length_drop, hlen] using value_lt h
  have hpos : 0 < 10 ^ (total - width) := Nat.pow_pos (by decide)
  have hdiv := congrArg (· / 10 ^ (total - width)) hsplit
  simp only [Nat.mul_add_div hpos, Nat.div_eq_of_lt hlt, Nat.add_zero] at hdiv
  exact hdiv.symm

end Almanac.Decimal
