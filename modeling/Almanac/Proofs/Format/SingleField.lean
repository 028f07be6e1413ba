import Almanac.Format.Write
import Almanac.Proofs.Decimal

namespace Almanac

open Decimal

theorem Decimal.length_padded_le_length_padded (width : Nat) {m n : Nat} (h : m ≤ n) :
    (padded width m).length ≤ (padded width n).length := by
  have hpos : 0 < (digits n).length := Nat.length_toDigits_pos
  have hn : n < 10 ^ (digits n).length :=
    (Nat.length_toDigits_le_iff (by decide) hpos).1 (Nat.le_refl _)
  have hdigits : (digits m).length ≤ (digits n).length :=
    (Nat.length_toDigits_le_iff (by decide) hpos).2 (Nat.lt_of_le_of_lt h hn)
  rw [length_padded, length_padded]
  omega

/-- Two flattened lists agree block by block if no block of the one is longer than its
counterpart. -/
theorem eq_of_flatMap_eq {α β : Type} {f g : α → List β} {xs : List α}
    (hle : ∀ x ∈ xs, (f x).length ≤ (g x).length) :
    (xs.flatMap f).length ≤ (xs.flatMap g).length ∧
    (xs.flatMap f = xs.flatMap g → ∀ x ∈ xs, f x = g x) := by
  induction xs with
  | nil => exact ⟨Nat.le_refl _, fun _ x hx ↦ nomatch hx⟩
  | cons x xs ih =>
    obtain ⟨hlen, heq⟩ := ih fun y hy ↦ hle y (List.mem_cons_of_mem _ hy)
    have hx := hle x List.mem_cons_self
    simp only [List.flatMap_cons, List.length_append]
    refine ⟨Nat.add_le_add hx hlen, fun h y hy ↦ ?_⟩
    have htotal := congrArg List.length h
    rw [List.length_append, List.length_append] at htotal
    obtain ⟨hhead, htail⟩ := List.append_inj h (by omega)
    rcases List.mem_cons.1 hy with rfl | hy
    · exact hhead
    · exact heq htail y hy

namespace Piece

variable {letter : Letter} {least most : Nat} {a b r : Reading} {pieces : List Piece}

theorem minus_mem_write_number :
    '-' ∈ (number letter least most).write r ↔ letter.field.value r < 0 := by
  have hpadded : '-' ∉ padded least (letter.field.value r).natAbs :=
    fun h ↦ absurd (isDigit_of_mem_padded h) (by decide)
  rw [write, List.mem_append, or_iff_left hpadded, Letter.sign]
  split
  · simp_all
  · split <;> simp_all

theorem filter_write_number :
    ((number letter least most).write r).filter Char.isDigit =
    padded least (letter.field.value r).natAbs := by
  have hsign : (letter.sign least (letter.field.value r)).filter Char.isDigit = [] := by
    unfold Letter.sign
    split
    · rfl
    · split <;> rfl
  rw [write, List.filter_append, hsign, List.nil_append, List.filter_eq_self]
  exact fun c ↦ isDigit_of_mem_padded

theorem value_eq_of_write_number_eq
    (h : (number letter least most).write a = (number letter least most).write b) :
    letter.field.value a = letter.field.value b := by
  have hsign : letter.field.value a < 0 ↔ letter.field.value b < 0 := by
    have ha := @minus_mem_write_number letter least most a
    rw [h] at ha
    exact ha.symm.trans minus_mem_write_number
  have hdigits := congrArg (fun text ↦ value (text.filter Char.isDigit)) h
  simp only [filter_write_number, value_padded] at hdigits
  omega

theorem length_write_number_le (hsign : letter.field.value a < 0 ↔ letter.field.value b < 0)
    (h : (letter.field.value a).natAbs ≤ (letter.field.value b).natAbs) :
    ((number letter least most).write a).length ≤ ((number letter least most).write b).length := by
  have hlen := length_padded_le_length_padded least h
  rw [write, write, List.length_append, List.length_append, Letter.sign, Letter.sign]
  by_cases hneg : letter.field.value a < 0
  · rw [if_pos hneg, if_pos (hsign.1 hneg)]
    exact Nat.add_le_add_left hlen 1
  · rw [if_neg hneg, if_neg (mt hsign.2 hneg)]
    split
    · rename_i hplus
      rw [if_pos ⟨hplus.1, hplus.2.1, by omega⟩]
      exact Nat.add_le_add_left hlen 1
    · exact Nat.le_trans (by rw [List.length_nil, Nat.zero_add]; exact hlen) (Nat.le_add_left _ _)

theorem flatMap_write_ne
    (hp : ∀ piece ∈ pieces, piece.letter? = none ∨ ∃ least most, piece = number letter least most)
    (hn : ∃ piece ∈ pieces, piece.letter? ≠ none) (ha : letter.field.value a < 0)
    (hb : ¬ letter.field.value b < 0) :
    pieces.flatMap (write a) ≠ pieces.flatMap (write b) := by
  induction pieces with
  | nil =>
    obtain ⟨piece, hmem, -⟩ := hn
    cases hmem
  | cons piece pieces ih =>
    rw [List.flatMap_cons, List.flatMap_cons]
    intro h
    rcases hp piece List.mem_cons_self with hliteral | ⟨least, most, rfl⟩
    · have hsame : piece.write a = piece.write b := by
        cases piece with
        | literal text => rfl
        | number | shortYear | fraction | name => cases hliteral
      rw [hsame] at h
      refine ih (fun other hmem ↦ hp other (List.mem_cons_of_mem _ hmem))
        ?_ (List.append_cancel_left h)
      obtain ⟨other, hmem, hother⟩ := hn
      rcases List.mem_cons.1 hmem with rfl | hmem
      · exact absurd hliteral hother
      · exact ⟨other, hmem, hother⟩
    · have hminus : '-' ∉ (number letter least most).write b := mt minus_mem_write_number.1 hb
      have hpos := length_padded_pos least (letter.field.value b).natAbs
      cases htext : (number letter least most).write b with
      | nil =>
        rw [write, List.append_eq_nil_iff] at htext
        rw [htext.2] at hpos
        cases hpos
      | cons c text =>
        rw [htext, write, Letter.sign, if_pos ha] at h
        rw [htext, ← (List.cons.inj h).1] at hminus
        exact hminus List.mem_cons_self

end Piece

/-- The text of a format with a single field, written as a number, tells the value of the field. -/
theorem Format.value_eq_of_writeReading_eq {f : Format} {letter : Letter} {a b : Reading}
    (hp : ∀ piece ∈ f.pieces, piece.letter? = none ∨
      ∃ least most, piece = .number letter least most)
    (hn : ∃ piece ∈ f.pieces, piece.letter? ≠ none) (h : f.writeReading a = f.writeReading b) :
    letter.field.value a = letter.field.value b := by
  have hblocks {a b : Reading} (hsign : letter.field.value a < 0 ↔ letter.field.value b < 0)
      (hle : (letter.field.value a).natAbs ≤ (letter.field.value b).natAbs)
      (h : f.writeReading a = f.writeReading b) : letter.field.value a = letter.field.value b := by
    obtain ⟨piece, hmem, hpiece⟩ := hn
    have hlen : ∀ piece ∈ f.pieces, (piece.write a).length ≤ (piece.write b).length := by
      intro piece hmem
      rcases hp piece hmem with hliteral | ⟨least, most, rfl⟩
      · cases piece with
        | literal text => exact Nat.le_refl _
        | number | shortYear | fraction | name => cases hliteral
      · exact Piece.length_write_number_le hsign hle
    have heq := (eq_of_flatMap_eq hlen).2 h piece hmem
    rcases hp piece hmem with hliteral | ⟨least, most, rfl⟩
    · exact absurd hliteral hpiece
    · exact Piece.value_eq_of_write_number_eq heq
  by_cases hsign : letter.field.value a < 0 ↔ letter.field.value b < 0
  · rcases Nat.le_total (letter.field.value a).natAbs (letter.field.value b).natAbs with hle | hle
    · exact hblocks hsign hle h
    · exact (hblocks hsign.symm hle h.symm).symm
  · rcases (show letter.field.value a < 0 ∧ ¬ letter.field.value b < 0 ∨
        letter.field.value b < 0 ∧ ¬ letter.field.value a < 0 by omega) with ⟨ha, hb⟩ | ⟨hb, ha⟩
    · exact absurd h (Piece.flatMap_write_ne hp hn ha hb)
    · exact absurd h.symm (Piece.flatMap_write_ne hp hn hb ha)

end Almanac
