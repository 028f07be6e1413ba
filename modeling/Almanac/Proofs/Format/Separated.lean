import Almanac.Proofs.Format.RoundTrip
import Almanac.Proofs.Format.SingleField

namespace Almanac

open Decimal

theorem Decimal.append_inj_of_digits {cs ds rest rest' : List Char} (hc : ∀ c ∈ cs, c.isDigit)
    (hd : ∀ c ∈ ds, c.isDigit) (hr : runLength rest = 0) (hr' : runLength rest' = 0)
    (h : cs ++ rest = ds ++ rest') :
    cs = ds ∧ rest = rest' := by
  have hrun := congrArg runLength h
  rw [runLength_append hc, runLength_append hd, hr, hr'] at hrun
  exact List.append_inj h hrun

theorem Decimal.take_padded_eq_iff {width m n : Nat} (hm : m < 10 ^ 9) (hn : n < 10 ^ 9) :
    (padded 9 m).take width = (padded 9 n).take width ↔
    m / 10 ^ (9 - width) = n / 10 ^ (9 - width) := by
  have hdigits (n : Nat) : ∀ c ∈ (padded 9 n).take width, c.isDigit :=
    fun c hc ↦ isDigit_of_mem_padded (List.mem_of_mem_take hc)
  have hlength {n : Nat} (hn : n < 10 ^ 9) : ((padded 9 n).take width).length = min width 9 := by
    rw [List.length_take, length_padded_eq (by decide) hn]
  rw [← value_take_padded hm (by decide), ← value_take_padded hn (by decide)]
  exact ⟨congrArg value, eq_of_value_eq (hdigits m) (hdigits n)
    ((hlength hm).trans (hlength hn).symm)⟩

namespace Piece

variable {a b : Reading} {piece : Piece} {pieces : List Piece} {letter : Letter}
  {names : List String} {first : Int}
  {rest rest' : List Char}

def isField (piece : Piece) : Bool := piece.letter?.isSome

def isSeparator : Piece → Bool
  | literal text => text ≠ [] ∧ beginsWithDigit text = false
  | _ => false

/-- Between two fields stands text that does not begin with a digit. -/
def separated : List Piece → Bool
  | [] => true
  | piece :: pieces =>
    (piece.isField && pieces.any isField → pieces.head?.any isSeparator) && separated pieces

theorem write_eq_of_not_isField (h : ¬ piece.isField) : piece.write a = piece.write b := by
  cases piece with
  | literal text => rfl
  | number | shortYear | fraction | name => exact absurd rfl h

theorem flatMap_write_eq_of_not_isField (h : ∀ piece ∈ pieces, ¬ piece.isField) :
    pieces.flatMap (write a) = pieces.flatMap (write b) := by
  rw [List.flatMap_def, List.flatMap_def]
  exact congrArg List.flatten (List.map_congr_left fun piece hp ↦
    write_eq_of_not_isField (h piece hp))

theorem runLength_flatMap_write (h : pieces.head?.any isSeparator) :
    runLength (pieces.flatMap (write a)) = 0 := by
  cases pieces with
  | nil => cases h
  | cons piece pieces =>
    cases piece with
    | literal text =>
      obtain ⟨hsome, hdigit⟩ : text ≠ [] ∧ beginsWithDigit text = false := by
        simpa [isSeparator] using h
      exact runLength_of_not_beginsWithDigit hsome hdigit
    | number | shortYear | fraction | name => cases h

theorem append_inj_of_names (ha : a.date.NearCalendar) (hb : b.date.NearCalendar)
    (hp : (name letter names first).Sound) (hn : ¬ (name letter names first).isNarrow)
    (h : (name letter names first).write a ++ rest = (name letter names first).write b ++ rest') :
    letter.field.value a = letter.field.value b := by
  obtain ⟨i, hi, hvalue, hname⟩ := write_name ha hp
  obtain ⟨j, hj, hvalue', hname'⟩ := write_name hb hp
  have hfree : PrefixFree names := hp.2.2.1.resolve_right (by simpa [isNarrow] using hn)
  have hfellow := List.pairwise_iff_getElem.1 hfree
  rw [hname, hname'] at h
  have hbegins : names[i].toList <+: names[j].toList ∨ names[j].toList <+: names[i].toList :=
    List.prefix_or_prefix_of_prefix (List.prefix_append _ rest) (h ▸ List.prefix_append _ rest')
  rcases Nat.lt_trichotomy i j with hlt | rfl | hlt
  · obtain ⟨hno, hno'⟩ := hfellow i j hi hj hlt
    exact (hbegins.elim hno hno').elim
  · rw [hvalue, hvalue']
  · obtain ⟨hno, hno'⟩ := hfellow j i hj hi hlt
    exact (hbegins.elim hno' hno).elim

/-- A piece in front of text without more digits is told by the whole. -/
theorem write_append_inj (ha : a.date.NearCalendar) (hb : b.date.NearCalendar) (hp : piece.Sound)
    (hn : ¬ piece.isNarrow) (hda : piece.isNumeric → ∀ c ∈ piece.write a, c.isDigit)
    (hdb : piece.isNumeric → ∀ c ∈ piece.write b, c.isDigit) (hr : runLength rest = 0)
    (hr' : runLength rest' = 0) (h : piece.write a ++ rest = piece.write b ++ rest') :
    piece.write a = piece.write b ∧ rest = rest' := by
  by_cases hnumeric : piece.isNumeric
  · exact append_inj_of_digits (hda hnumeric) (hdb hnumeric) hr hr' h
  · have hsame : piece.write a = piece.write b := by
      cases piece with
      | literal text => rfl
      | name letter names first => 
        have hvalue := append_inj_of_names ha hb hp hn h
        rw [write, write, hvalue]
      | number | shortYear | fraction => exact absurd rfl hnumeric
    rw [hsame] at h
    exact ⟨hsame, List.append_cancel_left h⟩

theorem write_eq_of_flatMap_write_eq (ha : a.date.NearCalendar) (hb : b.date.NearCalendar)
    (hp : ∀ piece ∈ pieces, piece.Sound) (hn : ∀ piece ∈ pieces, ¬ piece.isNarrow)
    (hda : ∀ piece ∈ pieces, piece.isNumeric → ∀ c ∈ piece.write a, c.isDigit)
    (hdb : ∀ piece ∈ pieces, piece.isNumeric → ∀ c ∈ piece.write b, c.isDigit)
    (hs : separated pieces) (h : pieces.flatMap (write a) = pieces.flatMap (write b)) :
    ∀ piece ∈ pieces, piece.write a = piece.write b := by
  induction pieces with
  | nil => exact fun piece hpiece ↦ nomatch hpiece
  | cons piece pieces ih =>
    rw [separated, Bool.and_eq_true, decide_eq_true_eq, Bool.and_eq_true] at hs
    obtain ⟨hapart, hs⟩ := hs
    rw [List.flatMap_cons, List.flatMap_cons] at h
    obtain ⟨hhead, htail⟩ : piece.write a = piece.write b ∧
      pieces.flatMap (write a) = pieces.flatMap (write b) := by
      by_cases hfield : piece.isField
      · by_cases hmore : pieces.any isField
        · have hseparator := hapart ⟨hfield, hmore⟩
          exact write_append_inj ha hb (hp piece List.mem_cons_self) (hn piece List.mem_cons_self)
            (hda piece List.mem_cons_self) (hdb piece List.mem_cons_self)
            (runLength_flatMap_write hseparator)
            (runLength_flatMap_write hseparator) h
        · -- Behind the last field the text is the same at all instants, digits or not.
          have htail := @flatMap_write_eq_of_not_isField a b pieces (by simpa using hmore)
          rw [htail] at h
          exact ⟨List.append_cancel_right h, htail⟩
      · have hhead := @write_eq_of_not_isField a b piece hfield
        rw [hhead] at h
        exact ⟨hhead, List.append_cancel_left h⟩
    have hrest := ih (fun other ho ↦ hp other (List.mem_cons_of_mem _ ho))
      (fun other ho ↦ hn other (List.mem_cons_of_mem _ ho))
      (fun other ho ↦ hda other (List.mem_cons_of_mem _ ho))
      (fun other ho ↦ hdb other (List.mem_cons_of_mem _ ho)) hs htail
    exact fun other ho ↦ (List.mem_cons.1 ho).elim (fun he ↦ he ▸ hhead) (hrest other)

theorem write_eq_iff_content?_eq (ha : a.date.NearCalendar) (hb : b.date.NearCalendar)
    (hp : piece.Sound) (hn : ¬ piece.isNarrow) (hy : ∀ letter, piece ≠ shortYear letter) :
    piece.write a = piece.write b ↔ piece.content? a = piece.content? b := by
  cases piece with
  | literal text => exact ⟨fun _ ↦ rfl, fun _ ↦ rfl⟩
  | number letter least most =>
    simp only [content?, Option.some.injEq, Prod.mk.injEq, true_and]
    exact ⟨value_eq_of_write_number_eq, fun h ↦ by rw [write, write, h]⟩
  | shortYear letter => exact absurd rfl (hy letter)
  | fraction width =>
    have hpos : 0 < 10 ^ (9 - width) := Nat.pow_pos (by decide)
    simp only [content?, Option.some.injEq, Prod.mk.injEq, true_and, Int.ofNat_inj,
      Nat.mul_left_inj (Nat.ne_of_gt hpos)]
    exact take_padded_eq_iff (clippedNano_lt a) (clippedNano_lt b)
  | name letter names first =>
    simp only [content?, Option.some.injEq, Prod.mk.injEq, true_and]
    exact ⟨fun h ↦ append_inj_of_names ha hb hp hn (congrArg (· ++ []) h),
      fun h ↦ by rw [write, write, h]⟩

end Piece

/-- A format whose fields are kept apart by text writes two readings alike just if all its fields
have one content at both. -/
theorem Format.writeReading_eq_iff {f : Format} {a b : Reading} (ha : a.date.NearCalendar)
    (hb : b.date.NearCalendar) (hp : ∀ piece ∈ f.pieces, piece.Sound)
    (hn : ∀ piece ∈ f.pieces, ¬ piece.isNarrow) (hy : ∀ letter, .shortYear letter ∉ f.pieces)
    (hda : ∀ piece ∈ f.pieces, piece.isNumeric → ∀ c ∈ piece.write a, c.isDigit)
    (hdb : ∀ piece ∈ f.pieces, piece.isNumeric → ∀ c ∈ piece.write b, c.isDigit)
    (hs : Piece.separated f.pieces) :
    f.writeReading a = f.writeReading b ↔
    ∀ piece ∈ f.pieces, piece.content? a = piece.content? b := by
  have hpiece (piece : Piece) (hm : piece ∈ f.pieces) :
      piece.write a = piece.write b ↔ piece.content? a = piece.content? b :=
    Piece.write_eq_iff_content?_eq ha hb (hp piece hm) (hn piece hm) fun letter he ↦
      hy letter (he ▸ hm)
  refine ⟨fun h piece hm ↦ ?_, fun h ↦ ?_⟩
  · exact (hpiece piece hm).1 (Piece.write_eq_of_flatMap_write_eq ha hb hp hn hda hdb hs h piece hm)
  · rw [writeReading, writeReading, List.flatMap_def, List.flatMap_def]
    exact congrArg List.flatten (List.map_congr_left fun piece hm ↦
      (hpiece piece hm).2 (h piece hm))

end Almanac
