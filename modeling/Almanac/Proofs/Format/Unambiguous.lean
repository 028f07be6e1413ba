import Almanac.Format.Read
import Almanac.Proofs.Decimal
import Almanac.Proofs.Format.Compile

namespace Almanac

open Decimal

namespace Piece

def isNumeric : Piece → Bool
  | number .. | shortYear _ | fraction _ => true
  | _ => false

def isFixed : Piece → Bool
  | number _ least most => least = most
  | shortYear _ | fraction _ => true
  | _ => false

def isVariable : Piece → Bool
  | number _ least most => least < most
  | _ => false

def isSigned : Piece → Bool
  | number letter _ _ | shortYear letter => letter.isSigned
  | _ => false

def endsDigits : Piece → Bool
  | literal text => !beginsWithDigit text
  | name _ names _ => names ≠ Letter.fullQuarters
  | _ => false

def least : Piece → Nat
  | number _ least _ => least
  | shortYear _ => 2
  | fraction width => width
  | _ => 0

def field? (piece : Piece) : Option DateField := piece.letter?.map Letter.field

def digitsEnd : List Piece → Bool
  | [] => true
  | piece :: pieces => piece.endsDigits || piece.isFixed && digitsEnd pieces

/-- Behind each number of variable width the run of digits ends in time. -/
def numbersEnd : List Piece → Bool
  | [] => true
  | piece :: pieces => (!piece.isVariable || digitsEnd pieces) && numbersEnd pieces

end Piece

/-- Each field is written once and by a name of its own, no sign follows a digit, and digits that
belong to different numbers can be told apart. -/
structure Format.Unambiguous (f : Format) : Prop where
  fields_nodup : (f.pieces.filterMap Piece.field?).Nodup
  not_narrow : ∀ piece ∈ f.pieces, ¬ piece.isNarrow
  signs_apart : f.pieces.IsChain fun before piece ↦ ¬ (before.isNumeric ∧ piece.isSigned)
  numbers_end : Piece.numbersEnd f.pieces

namespace Piece

variable {piece : Piece} {pieces : List Piece}

theorem owed_cons (piece : Piece) (pieces : List Piece) :
    owed (piece :: pieces) = if piece.isNumeric then piece.least + owed pieces else 0 := by
  cases piece <;> rfl

theorem isNumeric_of_isFixed (h : piece.isFixed) : piece.isNumeric := by
  cases piece <;> simp_all [isFixed, isNumeric]

theorem not_isNumeric_of_endsDigits (h : piece.endsDigits) : ¬ piece.isNumeric := by
  cases piece <;> simp_all [endsDigits, isNumeric]

theorem runLength_of_not_beginsWithDigit {text rest : List Char} (h : text ≠ [])
    (hd : beginsWithDigit text = false) : runLength (text ++ rest) = 0 := by
  cases text with
  | nil => exact absurd rfl h
  | cons c cs => exact runLength_eq_zero (by simpa [beginsWithDigit] using hd)

end Piece

end Almanac
