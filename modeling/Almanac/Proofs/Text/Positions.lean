import Almanac.Format.Read
import Almanac.Proofs.Checked
import Mathlib.Data.String.Basic

namespace Almanac.Text

open Checked

def bytes (text : String) : List UInt8 := text.toByteArray.data.toList

/-- The characters between two positions, both of which must lie between characters. -/
def slice (text : String) (start stop : Nat) : Checked (List Char) :=
  ensure (start ≤ stop ∧ String.Pos.Raw.IsValid text ⟨start⟩ ∧ String.Pos.Raw.IsValid text ⟨stop⟩)
    (String.Pos.Raw.extract text ⟨start⟩ ⟨stop⟩).toList

def bytesFrom (text : String) (position : Nat) : Checked (List UInt8) :=
  ensure (position ≤ text.utf8ByteSize) ((bytes text).drop position)

def byte? (text : String) (position : Nat) : Option UInt8 := (bytes text)[position]?

def move (text : String) (position count : Nat) : Checked Nat :=
  ensure (position + count ≤ text.utf8ByteSize) (position + count)

def isDigitByte (byte : UInt8) : Bool := 48 ≤ byte && byte ≤ 57

def digitBytes (bytes : List UInt8) : Nat := (bytes.takeWhile isDigitByte).length

/-- Characters that take up a text from a position on, so that the position is a boundary of
characters. -/
def Stands (text : String) (position : Nat) (rest : List Char) : Prop :=
  ∃ front, text.toList = front ++ rest ∧ byteLength front = position

variable {text : String} {position : Nat} {rest taken cs : List Char} {c : Char}

@[simp] theorem byteLength_append (a b : List Char) :
    byteLength (a ++ b) = byteLength a + byteLength b := by
  induction a with
  | nil => exact (Nat.zero_add _).symm
  | cons c cs ih => rw [List.cons_append, byteLength, byteLength, ih, Nat.add_assoc]

theorem byteLength_eq_utf8Len (cs : List Char) : byteLength cs = String.utf8Len cs := by
  induction cs with
  | nil => rfl
  | cons c cs ih => rw [byteLength, String.utf8Len_cons, ih, Nat.add_comm]

theorem utf8ByteSize_eq (text : String) : text.utf8ByteSize = byteLength text.toList := by
  rw [byteLength_eq_utf8Len, ← String.utf8ByteSize_ofList, String.ofList_toList]

theorem isDigit_iff : c.isDigit ↔ 48 ≤ c.toNat ∧ c.toNat ≤ 57 := by
  rw [Char.isDigit, Bool.and_eq_true, decide_eq_true_eq, decide_eq_true_eq]
  exact Iff.rfl

theorem utf8EncodeChar_cases (c : Char) :
    c.toNat < 128 ∧ String.utf8EncodeChar c = [UInt8.ofNat c.toNat] ∨
      128 ≤ c.toNat ∧ ∃ byte bytes, String.utf8EncodeChar c = byte :: bytes ∧ 128 ≤ byte.toNat := by
  have hval : c.val.toNat = c.toNat := rfl
  unfold String.utf8EncodeChar
  simp only [hval]
  split
  · exact .inl ⟨by omega, rfl⟩
  · refine .inr ⟨by omega, ?_⟩
    split
    · exact ⟨_, _, rfl, by simp only [UInt8.toNat_ofNat']; omega⟩
    · split <;> exact ⟨_, _, rfl, by simp only [UInt8.toNat_ofNat']; omega⟩

theorem byteLength_of_ascii (h : ∀ c ∈ cs, c.toNat < 128) : byteLength cs = cs.length := by
  induction cs with
  | nil => rfl
  | cons c cs ih =>
    have hone : c.utf8Size = 1 := by
      rcases utf8EncodeChar_cases c with ⟨-, he⟩ | ⟨hle, -⟩
      · rw [← String.length_utf8EncodeChar, he, List.length_singleton]
      · have := h c List.mem_cons_self
        omega
    rw [byteLength, hone, ih fun d hd ↦ h d (List.mem_cons_of_mem _ hd), List.length_cons,
      Nat.add_comm]

theorem byteLength_of_isDigit (h : ∀ c ∈ cs, c.isDigit) : byteLength cs = cs.length :=
  byteLength_of_ascii fun c hc ↦ Nat.lt_of_le_of_lt (isDigit_iff.1 (h c hc)).2 (by decide)

theorem isDigitByte_ofNat (h : c.toNat < 128) : isDigitByte (UInt8.ofNat c.toNat) = c.isDigit := by
  have hbyte : (UInt8.ofNat c.toNat).toNat = c.toNat := by
    rw [UInt8.toNat_ofNat']
    omega
  rw [Bool.eq_iff_iff, isDigit_iff, isDigitByte, Bool.and_eq_true, decide_eq_true_eq,
    decide_eq_true_eq, UInt8.le_iff_toNat_le, UInt8.le_iff_toNat_le, hbyte]
  rfl

theorem not_isDigitByte {byte : UInt8} (h : 128 ≤ byte.toNat) : isDigitByte byte = false := by
  rw [Bool.eq_false_iff, isDigitByte, ne_eq, Bool.and_eq_true, decide_eq_true_eq, decide_eq_true_eq,
    UInt8.le_iff_toNat_le, UInt8.le_iff_toNat_le]
  rintro ⟨-, hle⟩
  exact absurd (Nat.le_trans h hle) (by decide)

/-- The digits at the start of a text are counted byte by byte. -/
@[simp] theorem digitBytes_utf8 (cs : List Char) :
    digitBytes (cs.flatMap String.utf8EncodeChar) = Decimal.runLength cs := by
  induction cs with
  | nil => rfl
  | cons c cs ih =>
    unfold digitBytes Decimal.runLength at ih ⊢
    rw [List.flatMap_cons, List.takeWhile_cons]
    rcases utf8EncodeChar_cases c with ⟨hascii, he⟩ | ⟨hle, byte, bytes, he, hbyte⟩
    · rw [he, List.singleton_append, List.takeWhile_cons, isDigitByte_ofNat hascii]
      split
      · rw [List.length_cons, List.length_cons, ih]
      · rfl
    · have hd : ¬ c.isDigit := fun hd ↦ by
        have := isDigit_iff.1 hd
        omega
      rw [he, List.cons_append, List.takeWhile_cons, not_isDigitByte hbyte, if_neg hd]
      rfl

theorem digitBytes_take (width : Nat) (bytes : List UInt8) :
    digitBytes (bytes.take width) = min width (digitBytes bytes) := by
  induction bytes generalizing width with
  | nil => simp [digitBytes]
  | cons byte bytes ih =>
    cases width with
    | zero => simp [digitBytes]
    | succ width =>
      rw [List.take_succ_cons, digitBytes, digitBytes, List.takeWhile_cons, List.takeWhile_cons]
      split
      · rw [List.length_cons, List.length_cons, ← digitBytes, ← digitBytes, ih,
          Nat.add_min_add_right]
      · simp

theorem head?_utf8 {sign : Char} (hs : sign.toNat < 128) (cs : List Char) :
    (cs.flatMap String.utf8EncodeChar).head? = some (UInt8.ofNat sign.toNat) ↔
    cs.head? = some sign := by
  cases cs with
  | nil => simp
  | cons c cs =>
    rw [List.flatMap_cons, List.head?_cons, Option.some.injEq]
    rcases utf8EncodeChar_cases c with ⟨hascii, he⟩ | ⟨hle, byte, bytes, he, hbyte⟩
    · rw [he, List.singleton_append, List.head?_cons, Option.some.injEq]
      refine ⟨fun h ↦ Char.toNat_inj.1 ?_, fun h ↦ by rw [h]⟩
      have hnat := congrArg UInt8.toNat h
      rw [UInt8.toNat_ofNat', UInt8.toNat_ofNat'] at hnat
      omega
    · rw [he, List.cons_append, List.head?_cons, Option.some.injEq]
      refine iff_of_false ?_ ?_
      · rintro rfl
        rw [UInt8.toNat_ofNat'] at hbyte
        omega
      · rintro rfl
        omega

@[simp] theorem stands_start (text : String) : Stands text 0 text.toList := ⟨[], rfl, rfl⟩

namespace Stands

theorem size_eq (h : Stands text position rest) :
    position + byteLength rest = text.utf8ByteSize := by
  obtain ⟨front, happend, rfl⟩ := h
  simp [utf8ByteSize_eq, happend]

theorem le_size (h : Stands text position rest) : position ≤ text.utf8ByteSize := by
  rw [← h.size_eq]
  exact Nat.le_add_right _ _

theorem exists_front (h : Stands text position rest) :
    ∃ front : String, text = front ++ String.ofList rest ∧ front.utf8ByteSize = position := by
  obtain ⟨front, happend, rfl⟩ := h
  refine ⟨String.ofList front, ?_, ?_⟩
  · rw [← String.ofList_append, ← happend, String.ofList_toList]
  · rw [utf8ByteSize_eq, String.toList_ofList]

theorem isValid (h : Stands text position rest) : String.Pos.Raw.IsValid text ⟨position⟩ := by
  obtain ⟨front, happend, rfl⟩ := h.exists_front
  exact String.Pos.Raw.isValid_iff_exists_append.2 ⟨front, String.ofList rest, happend, rfl⟩

theorem behind (h : Stands text position (taken ++ rest)) :
    Stands text (position + byteLength taken) rest := by
  obtain ⟨front, happend, rfl⟩ := h
  exact ⟨front ++ taken, by rw [happend, List.append_assoc], byteLength_append front taken⟩

theorem gives_slice (h : Stands text position (taken ++ rest)) :
    (slice text position (position + byteLength taken)).Gives (.ok taken) := by
  have hbounds : position ≤ position + byteLength taken ∧ String.Pos.Raw.IsValid text ⟨position⟩ ∧
      String.Pos.Raw.IsValid text ⟨position + byteLength taken⟩ :=
        ⟨Nat.le_add_right _ _, h.isValid, h.behind.isValid⟩
  obtain ⟨front, happend, rfl⟩ := h
  have htext : text = String.ofList (front ++ taken ++ rest) := by
    rw [List.append_assoc, ← happend, String.ofList_toList]
  have hextract :
      (String.Pos.Raw.extract text ⟨byteLength front⟩
        ⟨byteLength front + byteLength taken⟩).toList = taken := by
    rw [htext, byteLength_eq_utf8Len, byteLength_eq_utf8Len, String.extract_of_valid,
      String.toList_ofList]
  rw [slice, hextract]
  exact gives_ensure hbounds taken

example : (slice "年" 0 1).run = none := by decide +kernel

theorem gives_slice_rest (h : Stands text position rest) :
    (slice text position text.utf8ByteSize).Gives (.ok rest) := by
  have hall : Stands text position (rest ++ []) := by rwa [List.append_nil]
  rw [← h.size_eq]
  exact hall.gives_slice

theorem gives_move (h : Stands text position (taken ++ rest)) :
    (move text position (byteLength taken)).Gives (.ok (position + byteLength taken)) :=
  gives_ensure (by rw [← h.behind.size_eq]; exact Nat.le_add_right _ _) _

theorem bytes_drop (h : Stands text position rest) :
    (bytes text).drop position = rest.flatMap String.utf8EncodeChar := by
  obtain ⟨front, happend, rfl⟩ := h
  have hlength : (front.flatMap String.utf8EncodeChar).length = byteLength front := by
    clear happend
    induction front with
    | nil => rfl
    | cons c cs ih =>
      rw [List.flatMap_cons, List.length_append, String.length_utf8EncodeChar, ih, byteLength]
  rw [bytes, ← String.ofList_toList (s := text), String.toByteArray_ofList, List.utf8Encode,
    List.data_toByteArray, happend, List.flatMap_append, List.drop_left' hlength]

theorem gives_bytesFrom (h : Stands text position rest) :
    (bytesFrom text position).Gives (.ok (rest.flatMap String.utf8EncodeChar)) := by
  rw [← h.bytes_drop]
  exact gives_ensure (by rw [← h.size_eq]; exact Nat.le_add_right _ _) _

theorem byte?_eq_some_iff (h : Stands text position rest) (hc : c.toNat < 128) :
    byte? text position = some (UInt8.ofNat c.toNat) ↔ rest.head? = some c := by
  rw [byte?, ← List.head?_drop, h.bytes_drop, head?_utf8 hc]

theorem byte?_eq_minus (h : Stands text position rest) :
    byte? text position = some 45 ↔ rest.head? = some '-' :=
  @byte?_eq_some_iff _ _ _ '-' h (by decide)

theorem byte?_eq_plus (h : Stands text position rest) :
    byte? text position = some 43 ↔ rest.head? = some '+' :=
  @byte?_eq_some_iff _ _ _ '+' h (by decide)

end Stands

end Almanac.Text
