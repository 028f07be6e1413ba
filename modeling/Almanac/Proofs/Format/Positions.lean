import Almanac.Proofs.Format.Acceptance
import Almanac.Proofs.Format.Owed
import Almanac.Proofs.Text.Positions

namespace Almanac

open Checked Decimal

/-- Where an error has a position, this lies between characters of the text. Text left over is all
that the text holds from there on, at least a character. -/
def ParseError.LiesIn (text : String) : ParseError → Prop
  | mismatch position _ => position ≤ text.utf8ByteSize ∧ String.Pos.Raw.IsValid text ⟨position⟩
  | trailingText position rest =>
    position ≤ text.utf8ByteSize ∧ String.Pos.Raw.IsValid text ⟨position⟩ ∧
      rest ≠ "" ∧ ∃ front : String, text = front ++ rest ∧ front.utf8ByteSize = position
  | _ => True

namespace Piece

def signAt (letter : Letter) (least owed : Nat) (text : String) (position : Nat) :
    Checked (Bool × Nat) :=
  if letter.isSigned then
    if Text.byte? text position = some 45 then do return (true, ← Text.move text position 1)
    else if Text.byte? text position = some 43 then do
      let following ← Text.bytesFrom text (position + 1)
      if least < 4 ∨ Text.digitBytes following - owed ≤ least then
        throw (.mismatch position .digits)
      else return (false, ← Text.move text position 1)
    else return (false, position)
  else return (false, position)

def digitsAt (letter : Letter) (least most owed : Nat) (text : String) (position : Nat) :
    Checked (Int × Nat) := do
  let following ← Text.bytesFrom text position
  let count := min (Text.digitBytes following - owed) most
  if count < least ∨ count = 0 then throw (.mismatch position .digits)
  else do
    let digits ← Text.slice text position (position + count)
    if Count.greatest < value digits then throw (.outOfRange letter.field Count.greatest)
    else return (value digits, ← Text.move text position count)

def numberAt (letter : Letter) (least most owed : Nat) (text : String) (position : Nat) :
    Checked (Option (DateField × Int) × Nat) := do
  let sign ← signAt letter least owed text position
  let magnitude ← digitsAt letter least most owed text sign.2
  let signed ← if sign.1 then int64 (-magnitude.1) else pure magnitude.1
  return (some (letter.field, signed), magnitude.2)

/-- Match a piece with what stands at a position. The result is the value found and the position
behind it. -/
def readAt (owed : Nat) (text : String) (position : Nat) :
    Piece → Checked (Option (DateField × Int) × Nat)
  | literal expected => do
    let rest ← Text.slice text position text.utf8ByteSize
    if expected.isPrefixOf rest then return (none, ← Text.move text position (byteLength expected))
    else throw (.mismatch position .literal)
  | number letter least most => numberAt letter least most owed text position
  | shortYear letter => do
    let magnitude ← digitsAt letter 2 2 owed text position
    return (some (letter.field, ← int64 (2000 + magnitude.1)), magnitude.2)
  | fraction width => do
    let following ← Text.bytesFrom text position
    if Text.digitBytes (following.take width) < width then throw (.mismatch position .fraction)
    else do
      let digits ← Text.slice text position (position + width)
      let nano := value (digits.rightpad 9 '0')
      if Count.greatest < nano then throw (.mismatch position .fraction)
      else return (some (.nanoOfSecond, nano), ← Text.move text position width)
  | name letter names first => do
    let rest ← Text.slice text position text.utf8ByteSize
    match splitName? names first rest with
    | none => throw (.mismatch position .name)
    | some (v, found, _) =>
      return (some (letter.field, ← int64 v), ← Text.move text position (byteLength found))

def Bounded : Piece → Prop
  | number _ least _ => 0 < least
  | fraction width => width ≤ 9
  | name _ names first => 0 ≤ first ∧ first + names.length ≤ 13
  | _ => True

end Piece

theorem Letter.bounded_piece {letter : Letter} {run : Nat} (h₁ : 0 < run)
    (h₂ : run ≤ letter.maxRun) :
    (letter.piece run).Bounded := by
  have hs := sound_piece h₁ h₂
  cases hp : letter.piece run with
  | literal text => trivial
  | shortYear letter => trivial
  | number other least most =>
    rw [hp] at hs
    exact hs.1
  | fraction width =>
    rw [hp] at hs
    exact hs.2
  | name other names first =>
    cases letter <;> dsimp only [piece] at hp <;> (try split at hp) <;> cases hp <;>
      exact ⟨by decide, by decide⟩

namespace Piece

variable {piece : Piece} {pieces before : List Piece} {letter : Letter}
  {least most owed position : Nat} {text : String}
  {rest sign unsigned digits tail : List Char} {found : Match} {e : ParseError}

theorem gives_signAt_of_none (h : Text.Stands text position rest)
    (hs : splitSign? letter least owed rest = none) :
    (signAt letter least owed text position).Gives (.error (.mismatch position .digits)) := by
  unfold splitSign? at hs
  split at hs
  · rename_i hsigned
    split at hs
    · cases hs
    · rename_i cs
      split at hs
      · cases hs
      · have hsign : Text.Stands text position (['+'] ++ cs) := h
        rw [signAt, if_pos hsigned, if_neg (by simp [h.byte?_eq_minus]),
          if_pos (h.byte?_eq_plus.2 rfl)]
        refine hsign.behind.gives_bytesFrom.bind_ok ?_
        rw [Text.digitBytes_utf8, if_pos (by omega)]
        exact gives_throw _
    · cases hs
  · cases hs

theorem gives_signAt (h : Text.Stands text position rest)
    (hs : splitSign? letter least owed rest = some (sign, unsigned)) :
    (signAt letter least owed text position).Gives
    (.ok (decide (sign = ['-']), position + sign.length)) := by
  unfold splitSign? at hs
  split at hs
  · rename_i hsigned
    rw [signAt, if_pos hsigned]
    split at hs
    · cases hs
      have hsign : Text.Stands text position (['-'] ++ unsigned) := h
      rw [if_pos (h.byte?_eq_minus.2 rfl)]
      exact hsign.gives_move.bind_ok (gives_pure _)
    · rename_i cs
      split at hs
      · cases hs
        have hsign : Text.Stands text position (['+'] ++ unsigned) := h
        rw [if_neg (by simp [h.byte?_eq_minus]), if_pos (h.byte?_eq_plus.2 rfl)]
        refine hsign.behind.gives_bytesFrom.bind_ok ?_
        rw [Text.digitBytes_utf8, if_neg (by omega)]
        exact hsign.gives_move.bind_ok (gives_pure _)
      · cases hs
    · rename_i hm hp
      cases hs
      have hm : rest.head? ≠ some '-' := fun he ↦ by
        obtain ⟨cs, rfl⟩ := List.head?_eq_some_iff.1 he
        exact hm cs rfl
      have hp : rest.head? ≠ some '+' := fun he ↦ by
        obtain ⟨cs, rfl⟩ := List.head?_eq_some_iff.1 he
        exact hp cs rfl
      rw [if_neg (mt h.byte?_eq_minus.1 hm), if_neg (mt h.byte?_eq_plus.1 hp)]
      exact gives_pure _
  · rename_i hunsigned
    cases hs
    rw [signAt, if_neg hunsigned]
    exact gives_pure _

theorem gives_digitsAt_of_none (h : Text.Stands text position rest)
    (hd : splitDigits? least most owed rest = none) :
    (digitsAt letter least most owed text position).Gives
    (.error (.mismatch position .digits)) := by
  unfold splitDigits? at hd
  dsimp only at hd
  split at hd
  · rename_i hcount
    refine h.gives_bytesFrom.bind_ok ?_
    rw [Text.digitBytes_utf8, if_pos (.inl hcount)]
    exact gives_throw _
  · cases hd

theorem gives_digitsAt (letter : Letter) (hl : 0 < least) (h : Text.Stands text position rest)
    (hd : splitDigits? least most owed rest = some (digits, tail)) :
    (digitsAt letter least most owed text position).Gives
      (if Count.greatest < value digits then .error (.outOfRange letter.field Count.greatest)
      else .ok (value digits, position + digits.length)) := by
  obtain ⟨rfl, hdigit, hleast, hlen⟩ := splitDigits?_eq_some hd
  have hbytes := Text.byteLength_of_isDigit hdigit
  refine h.gives_bytesFrom.bind_ok ?_
  rw [Text.digitBytes_utf8, ← hlen, if_neg (by omega)]
  refine Gives.bind_ok (hbytes ▸ h.gives_slice) ?_
  split
  · exact gives_throw _
  · refine Gives.bind_ok (hbytes ▸ h.gives_move) ?_
    exact gives_pure _

theorem value_rightpad_lt {width : Nat} (hw : width ≤ 9) (h : width ≤ runLength rest) :
    value ((rest.take width).rightpad 9 '0') < 10 ^ 9 := by
  have hpadded : ∀ c ∈ (rest.take width).rightpad 9 '0', c.isDigit := fun c hc ↦ by
    rcases List.mem_append.1 hc with hc | hc
    · exact isDigit_of_mem_take h c hc
    · rw [List.eq_of_mem_replicate hc]
      decide
  have hlen : (rest.take width).length ≤ 9 := Nat.le_trans (List.length_take_le _ _) hw
  have hlt := value_lt hpadded
  rwa [List.length_rightpad, Nat.max_eq_left hlen] at hlt

theorem byteLength_of_splitSign? (h : splitSign? letter least owed rest = some (sign, unsigned)) :
    byteLength sign = sign.length := by
  rcases (splitSign?_eq_some h).2 with rfl | ⟨-, rfl⟩ | ⟨-, rfl, -⟩ <;> rfl

theorem byteLength_take {width : Nat} (h : width ≤ runLength rest) :
    byteLength (rest.take width) = width := by
  rw [Text.byteLength_of_isDigit (isDigit_of_mem_take h),
    List.length_take_of_le (Nat.le_trans h (runLength_le_length rest))]

theorem gives_numberAt (hl : 0 < least) (h : Text.Stands text position rest) :
    (numberAt letter least most owed text position).Gives
      ((readNumber letter least most owed position rest).map fun found ↦
        (found.value, position + found.size)) := by
  rw [readNumber]
  cases hsign : splitSign? letter least owed rest with
  | none => exact (gives_signAt_of_none h hsign).bind_error
  | some split =>
    obtain ⟨sign, unsigned⟩ := split
    obtain rfl := (splitSign?_eq_some hsign).1
    have hbehind := h.behind
    rw [byteLength_of_splitSign? hsign] at hbehind
    refine (gives_signAt h hsign).bind_ok ?_
    dsimp only
    cases hdigits : splitDigits? least most owed unsigned with
    | none => exact (gives_digitsAt_of_none hbehind hdigits).bind_error
    | some split =>
      obtain ⟨digits, tail⟩ := split
      have hmagnitude := gives_digitsAt letter hl hbehind hdigits
      dsimp only
      split at hmagnitude
      · rename_i hlarge
        rw [if_pos hlarge]
        exact hmagnitude.bind_error
      · rename_i hsmall
        rw [if_neg hsmall]
        refine hmagnitude.bind_ok ?_
        dsimp only [Except.map]
        rw [← Nat.add_assoc]
        by_cases hminus : sign = ['-']
        · rw [if_pos hminus, if_pos (decide_eq_true hminus)]
          rw [Count.greatest] at hsmall
          exact (gives_int64 (by omega) (by omega)).bind_ok (gives_pure _)
        · rw [if_neg hminus, if_neg (by simpa using hminus)]
          exact (gives_pure _).bind_ok (gives_pure _)

theorem gives_readAt (hb : piece.Bounded) (owed : Nat) (h : Text.Stands text position rest) :
    (piece.readAt owed text position).Gives
      ((piece.read owed position rest).map fun found ↦ (found.value, position + found.size)) := by
  cases piece with
  | literal expected =>
    refine h.gives_slice_rest.bind_ok ?_
    rw [read, ← List.isSome_isPrefixOf?_eq_isPrefixOf]
    cases hbegins : expected.isPrefixOf? rest with
    | none => exact gives_throw _
    | some tail =>
      obtain rfl := List.isPrefixOf?_eq_some_iff_append_eq.1 hbegins
      exact h.gives_move.bind_ok (gives_pure _)
  | number letter least most =>
    exact gives_numberAt hb h
  | shortYear letter =>
    rw [read]
    cases hdigits : splitDigits? 2 2 owed rest with
    | none => exact (gives_digitsAt_of_none h hdigits).bind_error
    | some split =>
      obtain ⟨digits, tail⟩ := split
      obtain ⟨-, hd, hleast, hlen⟩ := splitDigits?_eq_some hdigits
      have htwo : digits.length = 2 := by omega
      have hlt := value_lt hd
      rw [htwo] at hlt
      have hmagnitude := gives_digitsAt letter (by decide) h hdigits
      rw [if_neg (by simp only [Count.greatest]; omega), htwo] at hmagnitude
      refine hmagnitude.bind_ok ?_
      exact (gives_int64 (by omega) (by omega)).bind_ok (gives_pure _)
  | fraction width =>
    refine h.gives_bytesFrom.bind_ok ?_
    rw [read, Text.digitBytes_take, Text.digitBytes_utf8]
    by_cases hrun : runLength rest < width
    · rw [if_pos (by omega), if_pos hrun]
      exact gives_throw _
    · rw [if_neg (by omega), if_neg hrun]
      have hsplit : Text.Stands text position (rest.take width ++ rest.drop width) := by
        rwa [List.take_append_drop]
      have hslice := hsplit.gives_slice
      have hmove := hsplit.gives_move
      rw [byteLength_take (Nat.not_lt.1 hrun)] at hslice hmove
      have hlt := value_rightpad_lt hb (Nat.not_lt.1 hrun)
      refine hslice.bind_ok ?_
      dsimp only
      rw [if_neg (by simp only [Count.greatest]; omega)]
      exact hmove.bind_ok (gives_pure _)
  | name letter names first =>
    refine h.gives_slice_rest.bind_ok ?_
    rw [read]
    cases hname : splitName? names first rest with
    | none => exact gives_throw _
    | some split =>
      obtain ⟨v, found, tail⟩ := split
      obtain ⟨candidate, hmem, rfl, rfl, rfl⟩ := splitName?_eq_some hname
      obtain ⟨hfirst, hlast⟩ := hb
      have hidx := List.idxOf_lt_length_of_mem hmem
      exact (gives_int64 (by omega) (by omega)).bind_ok (h.gives_move.bind_ok (gives_pure _))

/-- What a piece takes off a text is as long as the position moves on. -/
theorem exists_taken_of_read (h : piece.read owed position rest = .ok found) :
    ∃ taken, rest = taken ++ found.rest ∧ byteLength taken = found.size := by
  cases piece with
  | literal expected =>
    simp only [read] at h
    split at h
    · cases h
    · rename_i hbegins
      cases h
      exact ⟨expected, (List.isPrefixOf?_eq_some_iff_append_eq.1 hbegins).symm, rfl⟩
  | number letter least most =>
    simp only [read, readNumber] at h
    split at h
    · cases h
    · rename_i sign unsigned hsign
      split at h
      · cases h
      · rename_i digits tail hdigits
        split at h
        · cases h
        · cases h
          obtain ⟨rfl, hd, -⟩ := splitDigits?_eq_some hdigits
          refine ⟨sign ++ digits, ?_, ?_⟩
          · rw [List.append_assoc, (splitSign?_eq_some hsign).1]
          · simp [byteLength_of_splitSign? hsign, Text.byteLength_of_isDigit hd]
  | shortYear letter =>
    simp only [read] at h
    split at h
    · cases h
    · rename_i digits tail hdigits
      cases h
      obtain ⟨rfl, hd, hl, hlen⟩ := splitDigits?_eq_some hdigits
      refine ⟨digits, rfl, ?_⟩
      rw [Text.byteLength_of_isDigit hd]
      change digits.length = 2
      omega
  | fraction width =>
    simp only [read] at h
    split at h
    · cases h
    · rename_i hrun
      cases h
      exact ⟨rest.take width, (List.take_append_drop ..).symm, byteLength_take (Nat.not_lt.1 hrun)⟩
  | name letter names first =>
    simp only [read] at h
    split at h
    · cases h
    · rename_i v found tail hname
      cases h
      obtain ⟨candidate, hmem, rfl, rfl, rfl⟩ := splitName?_eq_some hname
      exact ⟨candidate.toList, rfl, rfl⟩

theorem liesIn_of_read (h : Text.Stands text position rest)
    (he : piece.read owed position rest = .error e) :
    e.LiesIn text := by
  have hhere : position ≤ text.utf8ByteSize ∧ String.Pos.Raw.IsValid text ⟨position⟩ :=
    ⟨h.le_size, h.isValid⟩
  cases piece
  case number letter least most =>
    simp only [read, readNumber] at he
    split at he
    · cases he
      exact hhere
    · rename_i sign unsigned hsign
      split at he
      · cases he
        obtain rfl := (splitSign?_eq_some hsign).1
        have hbehind := h.behind
        rw [byteLength_of_splitSign? hsign] at hbehind
        exact ⟨hbehind.le_size, hbehind.isValid⟩
      · split at he
        · cases he
          trivial
        · cases he
  all_goals
    simp only [read] at he
    split at he
    · cases he
      exact hhere
    · cases he

theorem liesIn_of_gather {v : FieldValues} {content : Option (DateField × Int)}
    (h : gather v content = .error e) :
    e.LiesIn text := by
  cases content with
  | none => cases h
  | some found =>
    rw [gather, FieldValues.assign] at h
    split at h
    · cases h
    · split at h
      · cases h
      · cases h
        trivial

/-- The position of an error lies between characters, wherever reading ends. -/
theorem liesIn_of_readAll {v : FieldValues} (h : Text.Stands text position rest)
    (he : readAll pieces position rest v = .error e) : e.LiesIn text := by
  induction pieces generalizing position rest v with
  | nil =>
    cases rest with
    | nil => cases he
    | cons c cs =>
      cases he
      exact ⟨h.le_size, h.isValid, mt String.ofList_eq_empty_iff.1 (List.cons_ne_nil c cs),
        h.exists_front⟩
  | cons piece pieces ih =>
    rw [readAll_cons] at he
    cases hread : piece.read (owed pieces) position rest with
    | error e' =>
      rw [hread] at he
      cases he
      exact liesIn_of_read h hread
    | ok found =>
      rw [hread] at he
      obtain ⟨taken, rfl, hsize⟩ := exists_taken_of_read hread
      have hbehind := h.behind
      rw [hsize] at hbehind
      change (gather v found.value >>= readAll pieces (position + found.size) found.rest) = _ at he
      cases hgather : gather v found.value with
      | error e' =>
        rw [hgather] at he
        cases he
        exact liesIn_of_gather hgather
      | ok w =>
        rw [hgather] at he
        exact ih hbehind he

end Piece

namespace Format

def owedBehind (f : Format) (index : Nat) : Checked Nat :=
  let behind := Piece.owed (f.pieces.drop (index + 1))
  ensure (index + 1 ≤ f.pieces.length ∧ behind ≤ f.pattern.length) behind

/-- Match pieces, each with its index in the format, with a text from a position to its end. -/
def readAllAt (f : Format) (text : String) :
    List (Piece × Nat) → Nat → FieldValues → Checked FieldValues
  | [], position, values =>
    if position < text.utf8ByteSize then do
      let rest ← Text.slice text position text.utf8ByteSize
      throw (.trailingText position (String.ofList rest))
    else pure values
  | (piece, index) :: pieces, position, values => do
    let owed ← f.owedBehind index
    let found ← piece.readAt owed text position
    let values ← liftM (Piece.gather values found.1)
    readAllAt f text pieces found.2 values

def readAt (f : Format) (text : String) : Checked FieldValues :=
  f.readAllAt text f.pieces.zipIdx 0 .empty

variable {f : Format} {text : String} {position : Nat} {rest : List Char}
  {pieces before : List Piece}

theorem gives_readAllAt (hf : f.pieces = before ++ pieces) (hb : ∀ piece ∈ f.pieces, piece.Bounded)
    (ho : ∀ index, Piece.owed (f.pieces.drop index) ≤ f.pattern.length)
    (h : Text.Stands text position rest) (values : FieldValues) :
    (f.readAllAt text (pieces.zipIdx before.length) position values).Gives
      (Piece.readAll pieces position rest values) := by
  induction pieces generalizing before position rest values with
  | nil =>
    rw [List.zipIdx_nil, readAllAt]
    have hsize := h.size_eq
    cases rest with
    | nil =>
      rw [if_neg (by simp only [byteLength] at hsize; omega)]
      exact gives_pure _
    | cons c cs =>
      have hc := c.utf8Size_pos
      rw [if_pos (by simp only [byteLength] at hsize; omega)]
      exact h.gives_slice_rest.bind_ok (gives_throw _)
  | cons piece pieces ih =>
    have hdrop : f.pieces.drop (before.length + 1) = pieces := by
      rw [hf, List.append_cons]
      exact List.drop_left' (by rw [List.length_append, List.length_singleton])
    have howed : (f.owedBehind before.length).Gives (.ok (Piece.owed pieces)) := by
      rw [owedBehind, ← hdrop]
      refine gives_ensure ⟨?_, ho _⟩ _
      rw [hf, List.length_append, List.length_cons]
      omega
    rw [List.zipIdx_cons, readAllAt, Piece.readAll_cons]
    refine howed.bind_ok ?_
    have hread := Piece.gives_readAt (hb piece (by rw [hf]; simp)) (Piece.owed pieces) h
    cases hpiece : piece.read (Piece.owed pieces) position rest with
    | error e =>
      rw [hpiece] at hread
      exact hread.bind_error
    | ok found =>
      obtain ⟨taken, rfl, hsize⟩ := Piece.exists_taken_of_read hpiece
      have hbehind := h.behind
      rw [hsize] at hbehind
      rw [hpiece] at hread
      refine hread.bind_ok ?_
      refine Gives.bind (gives_lift _) fun values _ ↦ ?_
      have hnext := @ih _ _ (before ++ [piece]) (by rw [hf, List.append_cons]) hbehind values
      rwa [List.length_append] at hnext

theorem bounded_of_compile {pattern : String} (hf : compile pattern = .ok f) {piece : Piece}
    (hp : piece ∈ f.pieces) :
    piece.Bounded := by
  rcases mem_pieces_of_compile hf hp with ⟨text, -, rfl⟩ | ⟨letter, run, h₁, h₂, rfl⟩
  · trivial
  · exact Letter.bounded_piece h₁ h₂

theorem gives_readAt {pattern : String} (hf : compile pattern = .ok f) (text : String) :
    (f.readAt text).Gives (f.read text) :=
  gives_readAllAt (List.nil_append _).symm (fun _ ↦ bounded_of_compile hf)
    (owed_drop_le_of_compile hf)
    (Text.stands_start text) .empty

end Format

end Almanac
