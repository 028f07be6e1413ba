import Almanac.Format.Write
import Almanac.Proofs.Format.Acceptance
import Almanac.Zone.Table
import Mathlib.Data.List.Nodup

namespace Almanac

open Decimal

theorem Letter.value_nonneg {letter : Letter} (h : ¬ letter.isSigned) {r : Reading}
    (hr : r.date.NearCalendar) :
    0 ≤ letter.field.value r := by
  have hl : 0 ≤ letter.field.low := by
    revert h
    cases letter <;> decide
  exact Int.le_trans hl (DateField.value_bounds hr letter.field).1

namespace Piece

variable {r : Reading} {piece before : Piece} {pieces : List Piece}

theorem number_length_le {letter : Letter} {least most : Nat} (hr : r.date.NearCalendar)
    (hs : (number letter least most).Sound) :
    (padded least (letter.field.value r).natAbs).length ≤ most := by
  obtain ⟨h₁, h₂, h₃⟩ := hs
  have hv := DateField.natAbs_value_lt hr letter.field
  exact length_padded_le h₂ (by omega) (Nat.lt_of_lt_of_le hv (Nat.pow_le_pow_right (by decide) h₃))

theorem clippedNano_lt (r : Reading) : r.clippedNano < 10 ^ 9 := by
  have := r.clippedNano_le
  omega

/-- The field of a piece and the value that the text of the piece keeps of it. A fraction keeps its
leading digits. -/
def content? (r : Reading) : Piece → Option (DateField × Int)
  | literal _ => none
  | number letter _ _ | shortYear letter | name letter _ _ =>
    some (letter.field, letter.field.value r)
  | fraction width =>
    some (.nanoOfSecond, ((r.clippedNano / 10 ^ (9 - width) * 10 ^ (9 - width) : Nat) : Int))

theorem write_name {letter : Letter} {names : List String} {first : Int} (hr : r.date.NearCalendar)
    (hp : (name letter names first).Sound) :
    ∃ (i : Nat) (h : i < names.length), letter.field.value r = first + i ∧
      (name letter names first).write r = names[i].toList := by
  obtain ⟨hl, hu⟩ := DateField.value_bounds hr letter.field
  obtain ⟨hf, hn, -⟩ := hp
  have hi : (letter.field.value r - first).toNat < names.length := by omega
  refine ⟨(letter.field.value r - first).toNat, hi, by omega, ?_⟩
  simp only [write]
  rw [if_neg (by omega), List.getD_eq_getElem?_getD, List.getElem?_eq_getElem hi, Option.getD_some]

theorem spells_number (hr : r.date.NearCalendar) {letter : Letter} {least most : Nat}
    (hp : (number letter least most).Sound) :
    (number letter least most).Spells ((number letter least most).write r)
      (some (letter.field, letter.field.value r)) := by
  have hsign : letter.Sign least (padded least (letter.field.value r).natAbs).length
      (letter.sign least (letter.field.value r)) := by
    unfold Letter.sign
    split
    · rename_i hneg
      apply Letter.Sign.minus
      by_contra hs
      have := letter.value_nonneg hs hr
      omega
    · split
      · rename_i hplus
        exact .plus hplus.1 hplus.2.1 hplus.2.2
      · exact .absent
  have hsmall : ((value (padded least (letter.field.value r).natAbs) : Nat) : Int) ≤
      Count.greatest := by
    have hv := DateField.natAbs_value_lt hr letter.field
    have hw : letter.field.width ≤ 18 := by cases letter <;> decide
    have := Nat.lt_of_lt_of_le hv (Nat.pow_le_pow_right (by decide) hw)
    rw [value_padded]
    unfold Count.greatest
    omega
  have hvalue : (if letter.sign least (letter.field.value r) = ['-']
      then -((letter.field.value r).natAbs : Int)
      else ((letter.field.value r).natAbs : Int)) = letter.field.value r := by
    unfold Letter.sign
    by_cases hneg : letter.field.value r < 0
    · rw [if_pos hneg, if_pos rfl]
      omega
    · rw [if_neg hneg, if_neg (by split <;> decide)]
      omega
  have hspells := Spells.number (fun c ↦ isDigit_of_mem_padded) (le_length_padded least _)
    (number_length_le hr hp) hsign hsmall
  rwa [value_padded, hvalue] at hspells

/-- What a piece writes is one of its spellings. Two-letter years stand for the years 2000 to 2099
only. -/
theorem spells_write (hr : r.date.NearCalendar) (hp : piece.Sound) (hn : ¬ piece.isNarrow)
    (hy : ∀ letter, piece = shortYear letter → 2000 ≤ letter.field.value r ∧
      letter.field.value r ≤ 2099) :
    piece.Spells (piece.write r) (piece.content? r) := by
  cases piece with
  | literal text => exact .literal
  | number letter least most => exact spells_number hr hp
  | shortYear letter =>
    obtain ⟨h₁, h₂⟩ := hy letter rfl
    have hlen : (padded 2 (letter.field.value r % 100).toNat).length = 2 :=
      length_padded_eq (by decide) (by omega)
    have hvalue : 2000 + ((letter.field.value r % 100).toNat : Int) = letter.field.value r := by
      omega
    have hspells : (shortYear letter).Spells _ _ := .shortYear (fun c ↦ isDigit_of_mem_padded) hlen
    rwa [value_padded, hvalue] at hspells
  | fraction width =>
    have hlen : ((padded 9 r.clippedNano).take width).length = width := by
      rw [List.length_take, length_padded_eq (by decide) (clippedNano_lt r)]
      exact Nat.min_eq_left hp.2
    have hspells := Spells.fraction
      (fun c hc ↦ isDigit_of_mem_padded (List.mem_of_mem_take hc)) hlen
    rwa [value_take_padded (clippedNano_lt r) (by decide), Nat.mul_comm] at hspells
  | name letter names first =>
    obtain ⟨i, hi, hv, hw⟩ := write_name hr hp
    have hfree : PrefixFree names := hp.2.2.1.resolve_right (by simpa [isNarrow] using hn)
    have hnodup : names.Nodup := by
      refine List.Pairwise.imp ?_ hfree
      rintro a b h rfl
      exact h.1 List.prefix_rfl
    have hspells : (name letter names first).Spells _ _ := .name (List.getElem_mem hi)
    rwa [hnodup.idxOf_getElem, ← hv, ← hw] at hspells

theorem spellsAll_write (hr : r.date.NearCalendar) (hs : ∀ piece ∈ pieces, piece.Sound)
    (hn : ∀ piece ∈ pieces, ¬ piece.isNarrow)
    (hy : ∀ letter, shortYear letter ∈ pieces → 2000 ≤ letter.field.value r ∧
      letter.field.value r ≤ 2099) :
    SpellsAll pieces (pieces.flatMap (write r)) (pieces.filterMap (content? r)) := by
  induction pieces with
  | nil => exact .nil
  | cons piece pieces ih =>
    have hpiece := spells_write hr (hs piece (by simp))
      (hn piece (by simp)) fun letter h ↦ hy letter (by simp [h])
    have hrest := ih (fun other ho ↦ hs other (by simp [ho]))
      (fun other ho ↦ hn other (by simp [ho]))
      fun letter h ↦ hy letter (by simp [h])
    have hcontents : (piece :: pieces).filterMap (content? r) =
        (piece.content? r).toList ++ pieces.filterMap (content? r) := by
      cases hcontent : piece.content? r <;> simp [hcontent]
    rw [List.flatMap_cons, hcontents]
    exact .cons hpiece hrest

theorem contents_agree (hd : (pieces.filterMap field?).Nodup) {field : DateField} {a b : Int}
    (ha : (field, a) ∈ pieces.filterMap (content? r))
    (hb : (field, b) ∈ pieces.filterMap (content? r)) : a = b := by
  have hfields : pieces.filterMap field? = (pieces.filterMap (content? r)).map Prod.fst := by
    rw [List.map_filterMap]
    congr 1
    funext piece
    cases piece <;> rfl
  rw [hfields] at hd
  exact (Prod.mk.inj (List.inj_on_of_nodup_map hd ha hb rfl)).2

theorem unsigned_of_isChain (hc : (before :: pieces).IsChain fun before piece ↦
    ¬ (before.isNumeric ∧ piece.isSigned)) (hb : before.isNumeric) : unsigned pieces := by
  induction pieces generalizing before with
  | nil => rfl
  | cons piece pieces ih =>
    obtain ⟨hhead, htail⟩ := List.isChain_cons_cons.1 hc
    rw [unsigned, Bool.or_eq_true, Bool.not_eq_true', Bool.and_eq_true, Bool.not_eq_true']
    by_cases hn : piece.isNumeric
    · refine .inr ⟨?_, ih htail hn⟩
      have hsigned : ¬ piece.isSigned := fun h ↦ hhead ⟨hb, h⟩
      cases piece <;> simp_all [takesSign, isSigned]
    · exact .inl (by simpa using hn)

theorem digitsApart_of_numbersEnd (hs : ∀ piece ∈ pieces, piece.Sound)
    (hc : pieces.IsChain fun before piece ↦ ¬ (before.isNumeric ∧ piece.isSigned))
    (he : numbersEnd pieces) :
    digitsApart pieces := by
  induction pieces with
  | nil => rfl
  | cons piece pieces ih =>
    rw [numbersEnd, Bool.and_eq_true, Bool.or_eq_true, Bool.not_eq_true'] at he
    have hrest := ih (fun other ho ↦ hs other (by simp [ho])) hc.tail he.2
    rw [digitsApart, hrest, Bool.and_true, Bool.or_eq_true, Bool.not_eq_true', Bool.and_eq_true,
      Bool.or_eq_true]
    cases piece with
    | number letter least most =>
      have hle := (hs _ List.mem_cons_self).2.1
      refine .inr ⟨unsigned_of_isChain hc rfl, he.1.imp_left fun h ↦ ?_⟩
      have h : most ≤ least := by simpa [isVariable] using h
      simp only [isFixed, decide_eq_true_eq]
      omega
    | shortYear letter => exact .inr ⟨unsigned_of_isChain hc rfl, .inl rfl⟩
    | literal | fraction | name => exact .inl rfl

end Piece

namespace Format

theorem read_writeReading {f : Format} {r : Reading} (hs : ∀ piece ∈ f.pieces, piece.Sound)
    (hu : f.Unambiguous) (hr : r.date.NearCalendar)
    (hy : ∀ letter, .shortYear letter ∈ f.pieces → 2000 ≤ letter.field.value r ∧
      letter.field.value r ≤ 2099) :
    ∃ values, f.read (String.ofList (f.writeReading r)) = .ok values ∧
      ∀ field value, values.get? field = some value ↔
        (field, value) ∈ f.pieces.filterMap (Piece.content? r) := by
  apply read_of_spellsAll hs (Piece.digitsApart_of_numbersEnd hs hu.signs_apart hu.numbers_end)
  · rw [String.toList_ofList]
    exact Piece.spellsAll_write hr hs hu.not_narrow hy
  · exact fun field a b ↦ Piece.contents_agree hu.fields_nodup

/-- An unambiguous format writes each instant that has a local time. It reads the text again, and
finds the fields of its pieces with the values they have at the instant. Two-letter years stand for
the years 2000 to 2099 only. -/
theorem read_written {pattern : String} {f : Format} (hf : compile pattern = .ok f)
    (hu : f.Unambiguous) {t : ZonedTime} (hw : t.wall.InCalendar)
    (hy : ∀ letter, .shortYear letter ∈ f.pieces → 2000 ≤ letter.field.value t.wall ∧
      letter.field.value t.wall ≤ 2099) :
    ∃ text values, f.writeChecked t = .ok text ∧ f.read text = .ok values ∧
      ∀ field value, values.get? field = some value ↔
        (field, value) ∈ f.pieces.filterMap (Piece.content? t.wall) := by
  obtain ⟨values, hread, hall⟩ :=
    read_writeReading (fun _ ↦ sound_of_compile hf) hu (Date.InCalendar.nearCalendar hw) hy
  exact ⟨f.write t, values, writeChecked_eq_ok_iff.2 ⟨hw, rfl⟩, hread, hall⟩

theorem read_written_leap_second :
    let f : Format := ⟨"uuuuMMdd'T'HHmmss.SSS", [.number .year 4 10, .number .monthOfYear 2 2,
      .number .dayOfMonth 2 2, .literal ['T'], .number .hourOfDay 2 2, .number .minuteOfHour 2 2,
      .number .secondOfMinute 2 2, .literal ['.'], .fraction 3]⟩
    let t : ZonedTime := ⟨.asiaKolkata, ⟨1483228799, 1500000000⟩⟩
    ∃ text values, f.writeChecked t = .ok text ∧ f.read text = .ok values ∧
      values.get? .dayOfMonth = some 1 ∧ values.get? .secondOfMinute = some 59 ∧
      values.get? .nanoOfSecond = some 999000000 := by
  intro f t
  have hf : compile "uuuuMMdd'T'HHmmss.SSS" = .ok f := by decide
  have hy : ∀ letter, .shortYear letter ∈ f.pieces →
      2000 ≤ letter.field.value t.wall ∧ letter.field.value t.wall ≤ 2099 := by
    intro letter h
    simp [f] at h
  obtain ⟨text, values, hwrite, hread, hall⟩ :=
    read_written hf ⟨by decide, by decide, by decide, by decide⟩
      (show t.wall.InCalendar by decide) hy
  exact ⟨text, values, hwrite, hread, (hall _ _).2 (by decide), (hall _ _).2 (by decide),
    (hall _ _).2 (by decide)⟩

end Format

end Almanac
