import Almanac.Proofs.Format.Timestamp
import Almanac.Proofs.Text.Positions

namespace Almanac

namespace Text

/-- The texts part at some place with the first having the smaller digit there. -/
def Precedes (as bs : List Char) : Prop :=
  ∃ (front : List Char) (c d : Char),
    c.isDigit ∧ d.isDigit ∧ c.toNat < d.toNat ∧ front ++ [c] <+: as ∧ front ++ [d] <+: bs

variable {as bs : List Char}

theorem bytes_ofList (cs : List Char) :
    bytes (String.ofList cs) = cs.flatMap String.utf8EncodeChar := by
  have hbytes := (stands_start (String.ofList cs)).bytes_drop
  rwa [List.drop_zero, String.toList_ofList] at hbytes

namespace Precedes

theorem append_left (h : Precedes as bs) (front : List Char) :
    Precedes (front ++ as) (front ++ bs) := by
  obtain ⟨same, c, d, hc, hd, hlt, ha, hb⟩ := h
  refine ⟨front ++ same, c, d, hc, hd, hlt, ?_, ?_⟩
  · rw [List.append_assoc]
    exact (List.prefix_append_right_inj front).2 ha
  · rw [List.append_assoc]
    exact (List.prefix_append_right_inj front).2 hb

theorem append (h : Precedes as bs) (as' bs' : List Char) : Precedes (as ++ as') (bs ++ bs') := by
  obtain ⟨front, c, d, hc, hd, hlt, ha, hb⟩ := h
  exact ⟨front, c, d, hc, hd, hlt, ha.trans (List.prefix_append as as'),
    hb.trans (List.prefix_append bs bs')⟩

theorem bytes_lt (h : Precedes as bs) : bytes (String.ofList as) < bytes (String.ofList bs) := by
  obtain ⟨front, c, d, hc, hd, hlt, ⟨as', rfl⟩, ⟨bs', rfl⟩⟩ := h
  have hbyte {e : Char} (he : e.isDigit) :
      e.toNat < 128 ∧ String.utf8EncodeChar e = [UInt8.ofNat e.toNat] := by
    have hdigit := isDigit_iff.1 he
    exact (utf8EncodeChar_cases e).resolve_right fun h ↦ by omega
  obtain ⟨hc, hcbyte⟩ := hbyte hc
  obtain ⟨hd, hdbyte⟩ := hbyte hd
  simp only [bytes_ofList, List.append_assoc, List.singleton_append, List.flatMap_append,
    List.flatMap_cons, hcbyte, hdbyte]
  refine List.append_left_lt (List.cons_lt_cons_iff.2 (.inl ?_))
  rw [UInt8.lt_iff_toNat_lt, UInt8.toNat_ofNat', UInt8.toNat_ofNat']
  omega

end Precedes

end Text

namespace Decimal

theorem precedes_of_value_lt {cs ds : List Char} (hc : ∀ c ∈ cs, c.isDigit)
    (hd : ∀ d ∈ ds, d.isDigit)
    (hlength : cs.length = ds.length) (h : value cs < value ds) : Text.Precedes cs ds := by
  induction cs generalizing ds with
  | nil =>
    obtain rfl := List.length_eq_zero_iff.1 hlength.symm
    exact absurd h (Nat.lt_irrefl _)
  | cons c cs ih =>
    cases ds with
    | nil => cases hlength
    | cons d ds =>
      have hcs (x : Char) (hx : x ∈ cs) : x.isDigit := hc x (List.mem_cons_of_mem _ hx)
      have hds (x : Char) (hx : x ∈ ds) : x.isDigit := hd x (List.mem_cons_of_mem _ hx)
      have hsame : cs.length = ds.length := Nat.succ.inj hlength
      have hc' := hc c List.mem_cons_self
      have hd' := hd d List.mem_cons_self
      rw [value_cons, value_cons, hsame] at h
      rcases Nat.lt_trichotomy (c.toNat - '0'.toNat) (d.toNat - '0'.toNat) with hlt | heq | hgt
      · exact ⟨[], c, d, hc', hd', by omega, ⟨cs, rfl⟩, ⟨ds, rfl⟩⟩
      · obtain rfl := digit_inj hc' hd' heq
        exact (ih hcs hds hsame (Nat.lt_of_add_lt_add_left h)).append_left [c]
      · have hless := value_lt hds
        have hmore := Nat.mul_le_mul_left (10 ^ ds.length) (Nat.succ_le_of_lt hgt)
        rw [Nat.succ_eq_add_one, Nat.mul_add, Nat.mul_one] at hmore
        omega

theorem padded_precedes {width m n : Nat} (hw : 0 < width) (hn : n < 10 ^ width) (h : m < n) :
    Text.Precedes (padded width m) (padded width n) := by
  refine precedes_of_value_lt (fun _ ↦ isDigit_of_mem_padded) (fun _ ↦ isDigit_of_mem_padded) ?_ ?_
  · rw [length_padded_eq hw (Nat.lt_trans h hn), length_padded_eq hw hn]
  · rwa [value_padded, value_padded]

end Decimal

namespace Piece

variable {letter : Letter} {least most : Nat} {a b r : Reading}

theorem write_number (hs : letter.isSigned = false) (hv : 0 ≤ letter.field.value r) :
    (number letter least most).write r = Decimal.padded least (letter.field.value r).natAbs := by
  rw [write, Letter.sign, if_neg (by omega), if_neg (by simp [hs]), List.nil_append]

theorem number_precedes (hs : letter.isSigned = false) (hl : 0 < least)
    (ha : 0 ≤ letter.field.value a) (hb : letter.field.value b < (10 ^ least : Nat))
    (h : letter.field.value a < letter.field.value b) :
    Text.Precedes ((number letter least most).write a) ((number letter least most).write b) := by
  rw [write_number hs ha, write_number hs (by omega)]
  exact Decimal.padded_precedes hl (by omega) (by omega)

end Piece

theorem Letter.Numbers.timestamp {letter : Letter} {fine coarse : CalendarUnit}
    (h : letter.Numbers fine coarse) {letters : List Letter}
    (hl : TimestampLetters letters coarse) : TimestampLetters (letter :: letters) fine := by
  cases h with
  | month => exact .month hl
  | day => exact .day hl
  | hour => exact .hour hl
  | minute => exact .minute hl
  | second => exact .second hl

/-- The items of a pattern of a year in four letters and, down to some unit, of numbers in two
letters each. -/
inductive DatedItems : List Item → CalendarUnit → Prop
  | year (texts : List (List Char)) : DatedItems (texts.map .literal ++ [.field 'y' 4]) .years
  | text {items : List Item} {unit : CalendarUnit} (text : List Char) :
      DatedItems items unit → DatedItems (items ++ [.literal text]) unit
  | number {items : List Item} {letter : Letter} {fine coarse : CalendarUnit} :
      letter.Numbers fine coarse → DatedItems items coarse →
      DatedItems (items ++ [.field letter.toChar 2]) fine

inductive DatedPieces : List Piece → CalendarUnit → Prop
  | year (texts : List (List Char)) :
      DatedPieces (texts.map .literal ++ [.number .yearOfEra 4 10]) .years
  | text {pieces : List Piece} {unit : CalendarUnit} (text : List Char) :
      DatedPieces pieces unit → DatedPieces (pieces ++ [.literal text]) unit
  | number {pieces : List Piece} {letter : Letter} {fine coarse : CalendarUnit} :
      letter.Numbers fine coarse → DatedPieces pieces coarse →
      DatedPieces (pieces ++ [.number letter 2 2]) fine

theorem DatedItems.exists_pieces {items : List Item} {unit : CalendarUnit}
    (h : DatedItems items unit) :
    ∃ pieces, items.mapM Item.piece = .ok pieces ∧ DatedPieces pieces unit := by
  have happend {items : List Item} {pieces : List Piece} {item : Item} {piece : Piece}
      (hitems : items.mapM Item.piece = .ok pieces) (hitem : item.piece = .ok piece) :
      (items ++ [item]).mapM Item.piece = .ok (pieces ++ [piece]) := by
    rw [List.mapM_append, hitems, List.mapM_cons, hitem]
    rfl
  induction h with
  | year texts =>
    have htexts : (texts.map Item.literal).mapM Item.piece = .ok (texts.map .literal) := by
      induction texts with
      | nil => rfl
      | cons text texts ih =>
        rw [List.map_cons, List.mapM_cons, ih]
        rfl
    exact ⟨_, happend htexts rfl, .year texts⟩
  | text text _ ih =>
    obtain ⟨pieces, hpieces, hdated⟩ := ih
    exact ⟨_, happend hpieces rfl, .text text hdated⟩
  | number hn _ ih =>
    obtain ⟨pieces, hpieces, hdated⟩ := ih
    refine ⟨_, happend hpieces ?_, .number hn hdated⟩
    cases hn <;> rfl

namespace DatedPieces

variable {pieces : List Piece} {unit : CalendarUnit} {a b : Reading}

theorem exists_letters (h : DatedPieces pieces unit) :
    ∃ letters, TimestampLetters letters unit ∧
    pieces.filterMap Piece.letter? = letters.reverse := by
  induction h with
  | year texts =>
    refine ⟨_, .yearOfEra, ?_⟩
    have htexts : (texts.map Piece.literal).filterMap Piece.letter? = [] := by simp [Piece.letter?]
    rw [List.filterMap_append, htexts]
    rfl
  | text text _ ih =>
    obtain ⟨letters, hletters, hpieces⟩ := ih
    refine ⟨letters, hletters, ?_⟩
    rw [List.filterMap_append, hpieces]
    exact List.append_nil _
  | number hn _ ih =>
    obtain ⟨letters, hletters, hpieces⟩ := ih
    refine ⟨_, hn.timestamp hletters, ?_⟩
    rw [List.filterMap_append, hpieces, List.reverse_cons]
    rfl

theorem year_le (h : DatedPieces pieces unit) (hle : a.period unit ≤ b.period unit) :
    a.date.year ≤ b.date.year := by
  induction h with
  | year =>
    rw [← Date.monthIndex_ediv, ← Date.monthIndex_ediv]
    exact hle
  | text _ _ ih => exact ih hle
  | number hn _ ih => exact ih (hn.period_le hle)

theorem write_eq (h : DatedPieces pieces unit) (heq : a.period unit = b.period unit) :
    pieces.flatMap (Piece.write a) = pieces.flatMap (Piece.write b) := by
  have happend {pieces : List Piece} {piece : Piece}
      (hpieces : pieces.flatMap (Piece.write a) = pieces.flatMap (Piece.write b))
      (hpiece : piece.write a = piece.write b) :
      (pieces ++ [piece]).flatMap (Piece.write a) =
      (pieces ++ [piece]).flatMap (Piece.write b) := by
    rw [List.flatMap_append, List.flatMap_append, hpieces, List.flatMap_singleton,
      List.flatMap_singleton, hpiece]
  induction h with
  | year texts =>
    have hyear : a.date.year = b.date.year := by
      rw [← Date.monthIndex_ediv, ← Date.monthIndex_ediv]
      exact heq
    refine happend (by simp only [List.flatMap_map, Piece.write]) (Piece.write_congr ?_)
    rintro letter ⟨⟩
    change a.date.yearOfEra = b.date.yearOfEra
    rw [Date.yearOfEra, Date.yearOfEra, hyear]
  | text text _ ih => exact happend (ih heq) rfl
  | number hn _ ih =>
    obtain ⟨hcoarse, hvalue⟩ := hn.period_eq_iff.1 heq
    refine happend (ih hcoarse) (Piece.write_congr ?_)
    rintro letter ⟨⟩
    exact hvalue

/-- An earlier period is shown by the lesser text. -/
theorem write_precedes (h : DatedPieces pieces unit) (ha : 1 ≤ a.date.year ∧ a.date.year ≤ 9999)
    (hb : 1 ≤ b.date.year ∧ b.date.year ≤ 9999) (hlt : a.period unit < b.period unit) :
    Text.Precedes (pieces.flatMap (Piece.write a)) (pieces.flatMap (Piece.write b)) := by
  induction h with
  | year texts =>
    rw [List.flatMap_append, List.flatMap_append, List.flatMap_singleton, List.flatMap_singleton]
    have hvalue {r : Reading} (hr : 1 ≤ r.date.year) :
        Letter.yearOfEra.field.value r = r.period .years := by
      rw [Reading.period, Date.monthIndex_ediv]
      exact if_pos hr
    have hyear : b.period .years = b.date.year := Date.monthIndex_ediv b.date
    have hyear' : a.period .years = a.date.year := Date.monthIndex_ediv a.date
    have hnumber := @Piece.number_precedes .yearOfEra 4 10 a b rfl (by decide)
      (by rw [hvalue ha.1]; omega)
      (by rw [hvalue hb.1]; omega) (by rwa [hvalue ha.1, hvalue hb.1])
    have htexts : (texts.map Piece.literal).flatMap (Piece.write a) =
        (texts.map Piece.literal).flatMap (Piece.write b) := by
      simp only [List.flatMap_map, Piece.write]
    rw [htexts]
    exact hnumber.append_left _
  | text text _ ih =>
    rw [List.flatMap_append, List.flatMap_append]
    exact (ih hlt).append _ _
  | number hn hcoarse ih =>
    rw [List.flatMap_append, List.flatMap_append, List.flatMap_singleton, List.flatMap_singleton]
    rcases hn.period_lt_iff.1 hlt with hlt | ⟨heq, hvalue⟩
    · exact (ih hlt).append _ _
    · rw [hcoarse.write_eq heq]
      exact (Piece.number_precedes hn.not_isSigned (by decide) (hn.value_bounds a).1
        (hn.value_bounds b).2 hvalue).append_left _

end DatedPieces

namespace NamePattern

variable {p : NamePattern} {pattern : String} {unit : CalendarUnit} {a b : Reading}

/-- Dated items always make a pattern for names, by the unit of the finest number. -/
theorem exists_of_datedItems (h : DatedItems (Item.ofPattern pattern.toList) unit) :
    ∃ p, compile pattern = .ok p ∧ Format.compile pattern = .ok p.format ∧ p.unit = unit ∧
      DatedPieces p.format.pieces unit := by
  obtain ⟨pieces, hpieces, hdated⟩ := h.exists_pieces
  obtain ⟨letters, hletters, hreverse⟩ := hdated.exists_letters
  have hperm : (pieces.filterMap Piece.letter?).Perm letters := hreverse ▸ List.reverse_perm letters
  have hf : Format.compile pattern = .ok ⟨pattern, pieces⟩ := by rw [Format.compile, hpieces]
  obtain ⟨finest, rest, rfl, -⟩ := hletters.exists_cons
  have hfinest : finest ∈ LetterSet.ofPattern pattern := by
    simp [← Format.letters_eq_ofPattern hf, Format.letters, hperm.mem_iff]
  obtain ⟨lowest, hlowest⟩ := LetterSet.exists_lowest? hfinest
  have hp := compile_of_letters hf hletters hperm hlowest
  exact ⟨_, hp, hf, unit_eq_of_letters hp hletters hperm, hdated⟩

theorem utc_write (p : NamePattern) (r : Reading) :
    p.write ⟨.utc, r⟩ = String.ofList (p.format.writeReading r) := by
  simp [write, Format.write]

theorem write_of_dated (h : DatedPieces p.format.pieces unit)
    (heq : a.period unit = b.period unit) :
    p.write ⟨.utc, a⟩ = p.write ⟨.utc, b⟩ := by
  rw [utc_write, utc_write]
  exact congrArg String.ofList (h.write_eq heq)

theorem bytes_write_lt (h : DatedPieces p.format.pieces unit)
    (ha : 1 ≤ a.date.year ∧ a.date.year ≤ 9999)
    (hb : 1 ≤ b.date.year ∧ b.date.year ≤ 9999) (hlt : a.period unit < b.period unit) :
    Text.bytes (p.write ⟨.utc, a⟩) < Text.bytes (p.write ⟨.utc, b⟩) := by
  rw [utc_write, utc_write]
  exact (h.write_precedes ha hb hlt).bytes_lt

theorem bytes_write_le (h : DatedPieces p.format.pieces unit)
    (ha : 1 ≤ a.date.year ∧ a.date.year ≤ 9999)
    (hb : 1 ≤ b.date.year ∧ b.date.year ≤ 9999) (hle : a.period unit ≤ b.period unit) :
    Text.bytes (p.write ⟨.utc, a⟩) ≤ Text.bytes (p.write ⟨.utc, b⟩) := by
  rcases Int.lt_or_eq_of_le hle with hlt | heq
  · exact List.le_of_lt (bytes_write_lt h ha hb hlt)
  · rw [write_of_dated h heq]
    exact List.le_refl _

end NamePattern

end Almanac
