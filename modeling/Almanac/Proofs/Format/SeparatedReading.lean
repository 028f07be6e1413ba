import Almanac.Proofs.FieldValues.Shows
import Almanac.Proofs.Format.Separated

namespace Almanac

open Decimal

namespace Piece

variable {r : Reading} {piece : Piece} {pieces : List Piece} {letter : Letter}
  {least most owed position size : Nat}
  {text rest left : List Char} {content : Option (DateField × Int)} {v w : FieldValues}

theorem owed_of_isSeparator (h : pieces.head?.any isSeparator) : Piece.owed pieces = 0 := by
  cases pieces with
  | nil => rfl
  | cons piece pieces =>
    cases piece with
    | literal text => rfl
    | number | shortYear | fraction | name => cases h

theorem owed_of_not_isField (h : ∀ piece ∈ pieces, ¬ piece.isField) : Piece.owed pieces = 0 := by
  cases pieces with
  | nil => rfl
  | cons piece pieces =>
    cases piece with
    | literal text => rfl
    | number | shortYear | fraction | name => exact absurd rfl (h _ List.mem_cons_self)

theorem eq_flatMap_write_of_readAll (hp : ∀ piece ∈ pieces, ¬ piece.isField)
    (h : readAll pieces position text v = .ok w) : text = pieces.flatMap (write r) := by
  induction pieces generalizing position text v with
  | nil =>
    cases text with
    | nil => rfl
    | cons c cs => cases h
  | cons piece pieces ih =>
    obtain ⟨found, mid, hread, -, h⟩ := exists_of_readAll_cons h
    have hrest := ih (fun other ho ↦ hp other (List.mem_cons_of_mem _ ho)) h
    rw [List.flatMap_cons, ← hrest]
    cases piece with
    | literal expected =>
      rw [read] at hread
      split at hread
      · cases hread
      · rename_i hbegins
        cases hread
        exact (List.isPrefixOf?_eq_some_iff_append_eq.1 hbegins).symm
    | number | shortYear | fraction | name => exact absurd rfl (hp _ List.mem_cons_self)

theorem content_of_spells_number (h : (number letter least most).Spells text content) :
    content = some (letter.field,
      if '-' ∈ text then -(value (text.filter Char.isDigit) : Int)
        else value (text.filter Char.isDigit)) := by
  cases h with
  | @number letter least most sign digits hd hl hm hsign hv =>
    have hfilter : digits.filter Char.isDigit = digits := List.filter_eq_self.2 hd
    have hno : '-' ∉ digits := fun hmem ↦ absurd (hd _ hmem) (by decide)
    cases hsign with
    | absent => simp [hfilter, hno]
    | minus => simp [hfilter, show '-'.isDigit = false from rfl]
    | plus => simp [hfilter, hno, show '+'.isDigit = false from rfl]

/-- A piece is read to its end and no further, if no more digits follow than are owed or if it is
known how much is left. -/
theorem eq_of_read_write (hr : r.date.NearCalendar) (hs : piece.Sound) (hn : ¬ piece.isNarrow)
    (hy : ∀ letter, piece ≠ shortYear letter) (ho : piece.isNumber → owed ≤ runLength rest)
    (hend : piece.isVariable → runLength rest = owed ∨ left = rest)
    (h : piece.read owed position (piece.write r ++ rest) = .ok ⟨content, size, left⟩) :
    content = piece.content? r ∧ left = rest := by
  have hspells := spells_write hr hs hn fun letter he ↦ absurd he (hy letter)
  by_cases hknown : piece.isVariable ∧ left = rest
  · obtain ⟨hvariable, rfl⟩ := hknown
    refine ⟨?_, rfl⟩
    cases piece with
    | number letter least most =>
      have hroom : least < most := by simpa [isVariable] using hvariable
      obtain ⟨spelled, htext, hspelled⟩ :=
        spells_of_read (fun _ _ _ he _ ↦ by cases he; exact hroom) h
      obtain rfl := List.append_cancel_right htext
      rw [content_of_spells_number hspelled, ← content_of_spells_number hspells]
    | literal | shortYear | fraction | name => cases hvariable
  · have hdone : piece.isVariable → runLength rest = owed :=
      fun hvariable ↦ (hend hvariable).resolve_right fun hleft ↦ hknown ⟨hvariable, hleft⟩
    obtain ⟨size', hread⟩ := read_of_spells hs hspells ho hdone position
    rw [hread] at h
    cases h
    exact ⟨rfl, rfl⟩

theorem get?_of_readAll_write (hr : r.date.NearCalendar) (hs : ∀ piece ∈ pieces, piece.Sound)
    (hn : ∀ piece ∈ pieces, ¬ piece.isNarrow) (hy : ∀ letter, shortYear letter ∉ pieces)
    (hsep : separated pieces) (h : readAll pieces position (pieces.flatMap (write r)) v = .ok w)
    (field : DateField) (value : Int) :
    w.get? field = some value ↔
      v.get? field = some value ∨ (field, value) ∈ pieces.filterMap (content? r) := by
  induction pieces generalizing position v with
  | nil =>
    cases h
    simp
  | cons piece pieces ih =>
    rw [separated, Bool.and_eq_true, decide_eq_true_eq, Bool.and_eq_true] at hsep
    obtain ⟨hapart, hsep⟩ := hsep
    rw [List.flatMap_cons] at h
    obtain ⟨⟨content, size, left⟩, mid, hread, hgather, h⟩ := exists_of_readAll_cons h
    have hself := hs piece List.mem_cons_self
    have hwide := hn piece List.mem_cons_self
    have hyear (letter : Letter) (he : piece = shortYear letter) : False :=
      hy letter (he ▸ List.mem_cons_self)
    obtain ⟨rfl, rfl⟩ : content = piece.content? r ∧ left = pieces.flatMap (write r) := by
      by_cases hfield : piece.isField
      · by_cases hmore : pieces.any isField
        · have hseparator := hapart ⟨hfield, hmore⟩
          have howed := owed_of_isSeparator hseparator
          have hrun := @runLength_flatMap_write r pieces hseparator
          exact eq_of_read_write hr hself hwide hyear (fun _ ↦ by omega)
            (fun _ ↦ .inl (by omega)) hread
        · -- The last field may take digits of the text behind it, but then this is not read.
          have hliterals : ∀ other ∈ pieces, ¬ other.isField := by simpa using hmore
          have howed := owed_of_not_isField hliterals
          have hleft : left = pieces.flatMap (write r) := eq_flatMap_write_of_readAll hliterals h
          exact eq_of_read_write hr hself hwide hyear (fun _ ↦ by omega) (fun _ ↦ .inr hleft) hread
      · cases piece with
        | literal text =>
          exact eq_of_read_write hr hself hwide hyear (absurd · Bool.false_ne_true)
            (absurd · Bool.false_ne_true) hread
        | number | shortYear | fraction | name => exact absurd rfl hfield
    have hrest := ih (fun other ho ↦ hs other (List.mem_cons_of_mem _ ho))
      (fun other ho ↦ hn other (List.mem_cons_of_mem _ ho))
      (fun letter hm ↦ hy letter (List.mem_cons_of_mem _ hm)) hsep h
    have hcontents : (piece :: pieces).filterMap (content? r) =
        (piece.content? r).toList ++ pieces.filterMap (content? r) := by
      cases hcontent : piece.content? r <;> simp [hcontent]
    rw [hrest, get?_gather hgather, hcontents, List.mem_append, or_assoc]

theorem signs_apart_of_separated (h : separated pieces) :
    pieces.IsChain fun before piece ↦ ¬ (before.isNumeric ∧ piece.isSigned) := by
  induction pieces with
  | nil => exact .nil
  | cons before pieces ih =>
    rw [separated, Bool.and_eq_true, decide_eq_true_eq, Bool.and_eq_true] at h
    obtain ⟨hapart, hsep⟩ := h
    cases pieces with
    | nil => exact .singleton before
    | cons piece pieces =>
      refine .cons_cons ?_ (ih hsep)
      rintro ⟨hnumeric, hsigned⟩
      have hfield : before.isField := by
        cases before with
        | literal | name => cases hnumeric
        | number | shortYear | fraction => rfl
      have hfield' : piece.isField := by
        cases piece with
        | literal | fraction | name => cases hsigned
        | number | shortYear => rfl
      have hseparator : piece.isSeparator := hapart ⟨hfield, by simp [hfield']⟩
      cases piece with
      | literal text => cases hfield'
      | number | shortYear | fraction | name => cases hseparator

end Piece

namespace Format

/-- Fields that stand in any order, each once, with text between them that does not begin with a
digit. Years are written in full, and so are names but for their endings. -/
structure Separates (f : Format) (fields : List DateField) : Prop where
  perm : (f.pieces.filterMap Piece.field?).Perm fields
  not_short : ∀ letter, .shortYear letter ∉ f.pieces
  not_narrow : ∀ piece ∈ f.pieces, ¬ piece.isNarrow
  separated : Piece.separated f.pieces

namespace Separates

variable {f : Format} {fields : List DateField} {pattern : String} {r : Reading} {t : ZonedTime}
  {values : FieldValues}

theorem not_fraction (h : f.Separates fields) (hn : .nanoOfSecond ∉ fields) (width : Nat) :
    .fraction width ∉ f.pieces := by
  intro hm
  exact hn (h.perm.subset (List.mem_filterMap.2 ⟨_, hm, rfl⟩))

theorem shows_of_read (h : f.Separates fields) (hf : compile pattern = .ok f)
    (hn : .nanoOfSecond ∉ fields) (hr : t.wall.date.NearCalendar)
    (hread : f.read (f.write t) = .ok values) : values.Shows fields t.wall := by
  rw [read, write, String.toList_ofList] at hread
  have hall := Piece.get?_of_readAll_write hr
    (fun _ ↦ sound_of_compile hf) h.not_narrow h.not_short h.separated hread
  have hw : ∀ width, .fraction width ∈ f.pieces → width = 9 :=
    fun width hm ↦ absurd hm (h.not_fraction hn width)
  have hmem (field : DateField) (value : Int) :
      values.get? field = some value ↔ field ∈ fields ∧ value = field.value t.wall := by
    rw [hall, FieldValues.get?_empty, Piece.mem_contents hw, h.perm.mem_iff]
    simp
  intro field
  split
  · rename_i hm
    exact (hmem field _).2 ⟨hm, rfl⟩
  · rename_i hm
    exact Option.eq_none_iff_forall_ne_some.2 fun value hv ↦ hm ((hmem field value).1 hv).1

/-- A text that was written is read, unless its last number can take digits of the text behind. -/
theorem exists_read (h : f.Separates fields) (hf : compile pattern = .ok f) (hd : fields.Nodup)
    (he : Piece.numbersEnd f.pieces) (hn : .nanoOfSecond ∉ fields) (hr : t.wall.date.NearCalendar) :
    ∃ values, f.read (f.write t) = .ok values := by
  have hu : f.Unambiguous := {
    fields_nodup := h.perm.nodup_iff.2 hd
    not_narrow := h.not_narrow
    signs_apart := Piece.signs_apart_of_separated h.separated
    numbers_end := he }
  obtain ⟨values, hread, -⟩ := read_shows (fun _ ↦ sound_of_compile hf) hu hr h.not_short
    fun width hm ↦ absurd hm (h.not_fraction hn width)
  exact ⟨values, hread⟩

end Separates

end Format

end Almanac
