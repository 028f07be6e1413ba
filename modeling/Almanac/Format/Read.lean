import Almanac.Count
import Almanac.Decimal
import Almanac.FieldValues
import Almanac.Format

namespace Almanac

/-- What a piece found at the start of a text: a value for a field, the bytes it took and the text
behind them. -/
structure Match where
  value : Option (DateField × Int)
  size : Nat
  rest : List Char
deriving DecidableEq

def byteLength : List Char → Nat
  | [] => 0
  | c :: cs => c.utf8Size + byteLength cs

namespace Piece

def owed : List Piece → Nat
  | number _ least _ :: pieces => least + owed pieces
  | shortYear _ :: pieces => 2 + owed pieces
  | fraction width :: pieces => width + owed pieces
  | _ => 0

/-- The digits of a number and the text behind them: all digits but those owed to the pieces behind,
yet no more than `most`, and none where these are fewer than `least`. -/
def splitDigits? (least most owed : Nat) (text : List Char) : Option (List Char × List Char) :=
  let count := min (Decimal.runLength text - owed) most
  if count < least then none else some (text.take count, text.drop count)

/-- The sign of a number and the text behind it. A plus belongs only to a signed year of four
letters or more, in front of more digits than that. -/
def splitSign? (letter : Letter) (least owed : Nat) (text : List Char) :
    Option (List Char × List Char) :=
  if letter.isSigned then
    match text with
    | '-' :: cs => some (['-'], cs)
    | '+' :: cs =>
      if 4 ≤ least ∧ least < Decimal.runLength cs - owed then some (['+'], cs) else none
    | cs => some ([], cs)
  else some ([], text)

def splitName? : List String → Int → List Char → Option (Int × List Char × List Char)
  | [], _, _ => none
  | candidate :: names, value, text =>
    match candidate.toList.isPrefixOf? text with
    | some rest => some (value, candidate.toList, rest)
    | none => splitName? names (value + 1) text

def readNumber (letter : Letter) (least most owed position : Nat) (text : List Char) :
    Except ParseError Match :=
  match splitSign? letter least owed text with
  | none => .error (.mismatch position .digits)
  | some (sign, unsigned) =>
    match splitDigits? least most owed unsigned with
    | none => .error (.mismatch (position + sign.length) .digits)
    | some (digits, rest) =>
      let value : Int := Decimal.value digits
      if Count.greatest < value then .error (.outOfRange letter.field Count.greatest)
      else
        let signed := if sign = ['-'] then -value else value
        .ok ⟨some (letter.field, signed), sign.length + digits.length, rest⟩

/-- Match a piece with the start of a text that lies at a byte position, where `owed` digits must be
left. -/
def read (owed position : Nat) (text : List Char) : Piece → Except ParseError Match
  | literal expected =>
    match expected.isPrefixOf? text with
    | none => .error (.mismatch position .literal)
    | some rest => .ok ⟨none, byteLength expected, rest⟩
  | number letter least most => readNumber letter least most owed position text
  | shortYear letter =>
    match splitDigits? 2 2 owed text with
    | none => .error (.mismatch position .digits)
    | some (digits, rest) => .ok ⟨some (letter.field, 2000 + Decimal.value digits), 2, rest⟩
  | fraction width =>
    if Decimal.runLength text < width then .error (.mismatch position .fraction)
    else
      let nano := Decimal.value ((text.take width).rightpad 9 '0')
      .ok ⟨some (.nanoOfSecond, nano), width, text.drop width⟩
  | name letter names first =>
    match splitName? names first text with
    | none => .error (.mismatch position .name)
    | some (value, found, rest) => .ok ⟨some (letter.field, value), byteLength found, rest⟩

def readAll : List Piece → Nat → List Char → FieldValues → Except ParseError FieldValues
  | [], _, [], values => .ok values
  | [], position, rest, _ => .error (.trailingText position (String.ofList rest))
  | piece :: pieces, position, text, values => do
    let found ← piece.read (owed pieces) position text
    let values ← match found.value with
      | none => pure values
      | some (field, value) => values.assign field value
    readAll pieces (position + found.size) found.rest values

end Piece

def Format.read (f : Format) (text : String) : Except ParseError FieldValues :=
  Piece.readAll f.pieces 0 text.toList .empty

end Almanac
