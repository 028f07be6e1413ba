import Almanac.Proofs.Checked
import Almanac.Proofs.Format.Spelling

namespace Almanac

open Decimal

def FieldValues.Gathers (v : FieldValues) (contents : List (DateField × Int)) : Prop :=
  ∀ field value, v.get? field = some value ↔ (field, value) ∈ contents

namespace Piece

/-- The spellings of pieces one after another, each with the values it gives to fields. -/
inductive SpellsAll : List Piece → List Char → List (DateField × Int) → Prop
  | nil : SpellsAll [] [] []
  | cons {piece : Piece} {pieces : List Piece} {text rest : List Char}
      {content : Option (DateField × Int)} {contents : List (DateField × Int)} :
      piece.Spells text content → SpellsAll pieces rest contents →
      SpellsAll (piece :: pieces) (text ++ rest) (content.toList ++ contents)

def takesSign : Piece → Bool
  | number letter _ _ => letter.isSigned
  | _ => false

def unsigned : List Piece → Bool
  | [] => true
  | piece :: pieces => !piece.isNumeric || !piece.takesSign && unsigned pieces

/-- The digits of each number can be told from those behind it: these follow without a sign, and
where the number is of variable width there are as many as their pieces need. -/
def digitsApart : List Piece → Bool
  | [] => true
  | piece :: pieces =>
    (!piece.isNumber || unsigned pieces && (piece.isFixed || digitsEnd pieces)) &&
      digitsApart pieces

variable {piece : Piece} {pieces : List Piece} {text rest : List Char}
  {content : Option (DateField × Int)}
  {contents : List (DateField × Int)} {position : Nat} {v w : FieldValues}

def gather (v : FieldValues) : Option (DateField × Int) → Except ParseError FieldValues
  | none => .ok v
  | some (field, value) => v.assign field value

theorem readAll_cons (piece : Piece) (pieces : List Piece) (position : Nat) (text : List Char)
    (v : FieldValues) :
    readAll (piece :: pieces) position text v =
      (piece.read (owed pieces) position text >>= fun found ↦
        gather v found.value >>= readAll pieces (position + found.size) found.rest) := by
  rw [readAll]
  cases piece.read (owed pieces) position text with
  | error e => rfl
  | ok found =>
    obtain ⟨_ | ⟨field, value⟩, size, rest⟩ := found <;> rfl

theorem exists_of_readAll_cons (h : readAll (piece :: pieces) position text v = .ok w) :
    ∃ found mid, piece.read (owed pieces) position text = .ok found ∧
    gather v found.value = .ok mid ∧
      readAll pieces (position + found.size) found.rest mid = .ok w := by
  rw [readAll_cons] at h
  obtain ⟨found, hread, h⟩ := exists_of_bind_eq_ok h
  obtain ⟨mid, hgather, h⟩ := exists_of_bind_eq_ok h
  exact ⟨found, mid, hread, hgather, h⟩

theorem eq_of_assign {field : DateField} {first value : Int} (h : v.assign field value = .ok w)
    (hf : v.get? field = some first) : first = value := by
  unfold FieldValues.assign at h
  simp only [hf] at h
  split at h
  · assumption
  · cases h

theorem get?_gather (h : gather v content = .ok w) (field : DateField) (value : Int) :
    w.get? field = some value ↔ v.get? field = some value ∨ (field, value) ∈ content.toList := by
  cases content with
  | none =>
    cases h
    simp
  | some found =>
    obtain ⟨other, number⟩ := found
    have hsame : v.get? other = some value → value = number := eq_of_assign h
    rw [FieldValues.get?_assign h]
    by_cases hf : field = other
    · subst hf
      simpa [eq_comm] using hsame
    · simp [hf]

theorem exists_gather
    (h : ∀ field a b, v.get? field = some a → (field, b) ∈ content.toList → a = b) :
    ∃ w, gather v content = .ok w := by
  cases content with
  | none => exact ⟨v, rfl⟩
  | some found =>
    obtain ⟨field, value⟩ := found
    have hsame := fun first hf ↦ h field first value hf (by simp)
    rw [gather, FieldValues.assign]
    cases hf : v.get? field with
    | none => exact ⟨_, rfl⟩
    | some first => exact ⟨v, if_pos (hsame first hf)⟩

/-- A text that is read spells the pieces, and the values found are those before together with those
spelled. -/
theorem spellsAll_of_readAll (hp : ∀ letter least most, number letter least most ∈ pieces →
    letter.isSigned → least < most) (h : readAll pieces position text v = .ok w) :
    ∃ contents, SpellsAll pieces text contents ∧
      ∀ field value, w.get? field = some value ↔ v.get? field = some value ∨
      (field, value) ∈ contents := by
  induction pieces generalizing position text v with
  | nil =>
    cases text with
    | nil =>
      cases h
      exact ⟨[], .nil, by simp⟩
    | cons c cs => cases h
  | cons piece pieces ih =>
    obtain ⟨⟨content, size, rest⟩, mid, hread, hgather, h⟩ := exists_of_readAll_cons h
    obtain ⟨contents, hspells, hall⟩ :=
      ih (fun letter least most hm ↦ hp letter least most (by simp [hm])) h
    obtain ⟨spelled, rfl, hspelled⟩ :=
      spells_of_read (fun letter least most he ↦ hp letter least most (by simp [he])) hread
    refine ⟨content.toList ++ contents, .cons hspelled hspells, fun field value ↦ ?_⟩
    rw [hall, get?_gather hgather, List.mem_append, or_assoc]

theorem digits_of_spells (hs : piece.Spells text content) (hn : piece.isNumeric)
    (hu : ¬ piece.takesSign) :
    (∀ c ∈ text, c.isDigit) ∧ piece.least ≤ text.length ∧
    (piece.isFixed → text.length = piece.least) := by
  cases hs with
  | literal => cases hn
  | name => cases hn
  | @number letter least most sign digits hd hl hm hsign =>
    have hnone : sign = [] := by
      cases hsign with
      | absent => rfl
      | minus h => exact absurd h hu
      | plus h => exact absurd h hu
    subst hnone
    refine ⟨hd, hl, fun hf ↦ ?_⟩
    have hf : least = most := by simpa [isFixed] using hf
    simp only [List.nil_append, Piece.least]
    omega
  | shortYear hd hlen => exact ⟨hd, hlen.ge, fun _ ↦ hlen⟩
  | fraction hd hlen => exact ⟨hd, hlen.ge, fun _ ↦ hlen⟩

theorem runLength_of_spells_endsDigits (hs : piece.Sound) (h : piece.Spells text content)
    (he : piece.endsDigits) (rest : List Char) : runLength (text ++ rest) = 0 := by
  cases h with
  | literal => exact runLength_of_not_beginsWithDigit hs (by simpa [endsDigits] using he)
  | name hmem =>
    obtain ⟨hne, hd⟩ := hs.2.2.2 _ hmem
    exact runLength_of_not_beginsWithDigit hne (hd.resolve_left (by simpa [endsDigits] using he))
  | number => cases he
  | shortYear => cases he
  | fraction => cases he

theorem SpellsAll.owed_le_runLength (h : SpellsAll pieces text contents) (hu : unsigned pieces) :
    owed pieces ≤ runLength text := by
  induction h with
  | nil => exact Nat.zero_le _
  | @cons piece pieces text rest content contents hp _ ih =>
    rw [owed_cons]
    split
    · rename_i hn
      simp only [unsigned, hn, Bool.not_true, Bool.false_or, Bool.and_eq_true,
        Bool.not_eq_true'] at hu
      obtain ⟨hd, hl, -⟩ := digits_of_spells hp hn (by simp [hu.1])
      have hrest := ih hu.2
      rw [runLength_append hd]
      omega
    · exact Nat.zero_le _

/-- Where the run of digits ends in time, a text that spells pieces begins with just the digits owed
to them. -/
theorem SpellsAll.runLength_eq_owed (h : SpellsAll pieces text contents)
    (hs : ∀ piece ∈ pieces, piece.Sound)
    (hu : unsigned pieces) (he : digitsEnd pieces) : runLength text = owed pieces := by
  induction h with
  | nil => rfl
  | @cons piece pieces text rest content contents hp _ ih =>
    rw [digitsEnd, Bool.or_eq_true, Bool.and_eq_true] at he
    rcases he with he | ⟨hf, he⟩
    · rw [owed_cons, if_neg (not_isNumeric_of_endsDigits he),
        runLength_of_spells_endsDigits (hs piece (by simp)) hp he]
    · have hn := isNumeric_of_isFixed hf
      simp only [unsigned, hn, Bool.not_true, Bool.false_or, Bool.and_eq_true,
        Bool.not_eq_true'] at hu
      obtain ⟨hd, -, hl⟩ := digits_of_spells hp hn (by simp [hu.1])
      rw [owed_cons, if_pos hn, runLength_append hd, hl hf,
        ih (fun other ho ↦ hs other (by simp [ho])) hu.2 he]

theorem isNumber_of_isVariable (h : piece.isVariable) : piece.isNumber ∧ piece.isFixed = false := by
  cases piece with
  | number letter least most =>
    have h : least < most := by simpa [isVariable] using h
    exact ⟨rfl, by simp only [isFixed, decide_eq_false_iff_not]; omega⟩
  | literal | shortYear | fraction | name => cases h

/-- A spelling is read where digits can be told apart and repeated fields agree, and the values
found are those before together with those spelled. -/
theorem SpellsAll.readAll_eq_ok (h : SpellsAll pieces text contents)
    (hs : ∀ piece ∈ pieces, piece.Sound) (ha : digitsApart pieces)
    (hagree : ∀ field a b, v.get? field = some a ∨ (field, a) ∈ contents →
      v.get? field = some b ∨ (field, b) ∈ contents → a = b) (position : Nat) :
    ∃ w, readAll pieces position text v = .ok w ∧
      ∀ field value, w.get? field = some value ↔ v.get? field = some value ∨
      (field, value) ∈ contents := by
  induction h generalizing position v with
  | nil => exact ⟨v, rfl, by simp⟩
  | @cons piece pieces text rest content contents hp hrest ih =>
    have hs' : ∀ other ∈ pieces, other.Sound := fun other ho ↦ hs other (by simp [ho])
    rw [digitsApart, Bool.and_eq_true, Bool.or_eq_true, Bool.and_eq_true, Bool.or_eq_true,
      Bool.not_eq_true'] at ha
    obtain ⟨hnumber, ha⟩ := ha
    have howed : piece.isNumber → owed pieces ≤ runLength rest := by
      intro hn
      exact hrest.owed_le_runLength (hnumber.resolve_left (by simp [hn])).1
    have hequal : piece.isVariable → runLength rest = owed pieces := by
      intro hv
      obtain ⟨hn, hf⟩ := isNumber_of_isVariable hv
      obtain ⟨hu, he⟩ := hnumber.resolve_left (by simp [hn])
      exact hrest.runLength_eq_owed hs' hu (he.resolve_left (by simp [hf]))
    obtain ⟨size, hread⟩ := read_of_spells (hs piece (by simp)) hp howed hequal position
    obtain ⟨mid, hgather⟩ : ∃ mid, gather v content = .ok mid := by
      apply exists_gather
      intro field a b hfirst hsecond
      exact hagree field a b (.inl hfirst) (.inr (List.mem_append_left _ hsecond))
    have hmid := get?_gather hgather
    obtain ⟨w, hw, hall⟩ := @ih mid hs' ha (by
      intro field a b hfirst hsecond
      rw [hmid, or_assoc, ← List.mem_append] at hfirst hsecond
      exact hagree field a b hfirst hsecond) (position + size)
    refine ⟨w, ?_, fun field value ↦ ?_⟩
    · rw [readAll_cons, hread]
      change (gather v content >>= readAll pieces (position + size) rest) = _
      rw [hgather]
      exact hw
    · rw [hall, hmid, List.mem_append, or_assoc]

theorem digitsApart_of_isChain
    (h : pieces.IsChain fun before piece ↦ before.isNumeric → piece.endsDigits) :
    digitsApart pieces := by
  induction pieces with
  | nil => rfl
  | cons piece pieces ih =>
    have hhead : piece.isNumeric → unsigned pieces ∧ digitsEnd pieces := by
      intro hn
      cases pieces with
      | nil => exact ⟨rfl, rfl⟩
      | cons other pieces =>
        have he := (List.isChain_cons_cons.1 h).1 hn
        simp [unsigned, digitsEnd, he, not_isNumeric_of_endsDigits he]
    rw [digitsApart, ih h.tail, Bool.and_true, Bool.or_eq_true, Bool.not_eq_true']
    cases piece with
    | number | shortYear =>
      obtain ⟨hu, he⟩ := hhead rfl
      exact .inr (by simp [hu, he])
    | literal | fraction | name => exact .inl rfl

end Piece

namespace Format

variable {f : Format}

theorem least_lt_most_of_compile {pattern : String} (hf : compile pattern = .ok f) {letter : Letter}
    {least most : Nat} (hm : .number letter least most ∈ f.pieces) (hs : letter.isSigned)
    (hl : least ≤ 9) :
    least < most := by
  rcases mem_pieces_of_compile hf hm with ⟨text, -, he⟩ | ⟨other, run, -, -, he⟩
  · cases he
  · obtain rfl : letter = other := by
      have hletter := congrArg Piece.letter? he
      rw [Letter.letter?_piece] at hletter
      exact Option.some.inj hletter
    have hyear : letter = .weekBasedYear ∨ letter = .year := by simpa [Letter.isSigned] using hs
    rcases hyear with rfl | rfl <;> rw [Letter.piece] at he <;> split at he <;> cases he <;> omega

theorem read_of_spellsAll {text : String} {contents : List (DateField × Int)}
    (hs : ∀ piece ∈ f.pieces, piece.Sound)
    (ha : Piece.digitsApart f.pieces) (h : Piece.SpellsAll f.pieces text.toList contents)
    (hagree : ∀ field a b, (field, a) ∈ contents → (field, b) ∈ contents → a = b) :
    ∃ values, f.read text = .ok values ∧ values.Gathers contents := by
  have hagree : ∀ field a b, FieldValues.empty.get? field = some a ∨ (field, a) ∈ contents →
      FieldValues.empty.get? field = some b ∨ (field, b) ∈ contents → a = b := by
    simpa using hagree
  obtain ⟨values, hread, hall⟩ := h.readAll_eq_ok hs ha hagree 0
  refine ⟨values, hread, fun field value ↦ ?_⟩
  simpa using hall field value

/-- A text that is read spells the pieces of the format, years with a sign having at most nine
letters, and each field has the value spelled for it. Conversely a spelling in which repeated fields
agree is read, if the digits of fields side by side can be told apart; so they can where no numeric
piece, be it a number or a fraction, is followed by another or by a digit. -/
theorem read_iff_spelled {pattern : String} (hf : compile pattern = .ok f) (text : String) :
    ((∀ letter least most, .number letter least most ∈ f.pieces → letter.isSigned → least ≤ 9) →
        ∀ values, f.read text = .ok values →
          ∃ contents, Piece.SpellsAll f.pieces text.toList contents ∧ values.Gathers contents) ∧
      (Piece.digitsApart f.pieces → ∀ contents, Piece.SpellsAll f.pieces text.toList contents →
        (∀ field a b, (field, a) ∈ contents → (field, b) ∈ contents → a = b) →
          ∃ values, f.read text = .ok values ∧ values.Gathers contents) ∧
      ((f.pieces.IsChain fun before piece ↦ before.isNumeric → piece.endsDigits) →
        Piece.digitsApart f.pieces) := by
  refine ⟨fun hy values h ↦ ?_, fun ha _ h ↦ read_of_spellsAll (fun _ ↦ sound_of_compile hf) ha h,
    Piece.digitsApart_of_isChain⟩
  obtain ⟨contents, hspells, hall⟩ := Piece.spellsAll_of_readAll
    (fun letter least most hm hs ↦ least_lt_most_of_compile hf hm hs (hy letter least most hm hs)) h
  refine ⟨contents, hspells, fun field value ↦ ?_⟩
  simpa using hall field value

theorem read_wide_year :
    let f : Format :=
      ⟨"uuuuMM EEEEE", [.number .year 4 10, .number .monthOfYear 2 2, .literal [' '],
        .name .dayOfWeek Letter.narrowDays 1]⟩
    ∃ values, f.read "+1234505 T" = .ok values ∧
    values.Gathers [(.year, 12345), (.monthOfYear, 5), (.dayOfWeek, 2)] := by
  intro f
  have hf : compile "uuuuMM EEEEE" = .ok f := by decide
  have hyear : (Piece.number .year 4 10).Spells (['+'] ++ ['1', '2', '3', '4', '5'])
      (some (.year, 12345)) :=
    .number (by simp) (by decide) (by decide) (.plus rfl (by decide) (by decide)) (by decide)
  have hmonth : (Piece.number .monthOfYear 2 2).Spells ([] ++ ['0', '5'])
      (some (.monthOfYear, 5)) :=
    .number (by simp) (by decide) (by decide) .absent (by decide)
  have hspace : (Piece.literal [' ']).Spells [' '] none := .literal
  have hday : (Piece.name .dayOfWeek Letter.narrowDays 1).Spells "T".toList
      (some (.dayOfWeek, 2)) :=
    .name (by decide)
  have hspells : Piece.SpellsAll f.pieces "+1234505 T".toList
      [(.year, 12345), (.monthOfYear, 5), (.dayOfWeek, 2)] := by
    simpa [f] using Piece.SpellsAll.cons hyear (.cons hmonth (.cons hspace (.cons hday .nil)))
  have hagree : ∀ x ∈ [(DateField.year, (12345 : Int)), (.monthOfYear, 5), (.dayOfWeek, 2)],
      ∀ y ∈ [(DateField.year, (12345 : Int)), (.monthOfYear, 5), (.dayOfWeek, 2)],
      x.1 = y.1 → x.2 = y.2 := by decide
  obtain ⟨-, hread, -⟩ := read_iff_spelled hf "+1234505 T"
  exact hread (by decide) _ hspells fun field a b ha hb ↦ hagree _ ha _ hb rfl

end Format

end Almanac
