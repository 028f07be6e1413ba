import Almanac.Decimal
import Almanac.Format
import Almanac.ZonedTime

namespace Almanac

/-- The sign of a number: a minus, or a plus for a signed year of four letters or more that outgrows
them. -/
def Letter.sign (letter : Letter) (least : Nat) (value : Int) : List Char :=
  if value < 0 then ['-']
  else if letter.isSigned ∧ 4 ≤ least ∧ least < (Decimal.padded least value.natAbs).length then
    ['+']
  else []

def Piece.write (r : Reading) : Piece → List Char
  | literal text => text
  | number letter least _ =>
    letter.sign least (letter.field.value r) ++ Decimal.padded least (letter.field.value r).natAbs
  | shortYear letter => Decimal.padded 2 (letter.field.value r % 100).toNat
  | fraction width => (Decimal.padded 9 r.clippedNano).take width
  | name letter names first =>
    let index := letter.field.value r - first
    if index < 0 then [] else (names.getD index.toNat "").toList

namespace Format

def writeReading (f : Format) (r : Reading) : List Char := f.pieces.flatMap (Piece.write r)

def write (f : Format) (t : ZonedTime) : String := String.ofList (f.writeReading t.wall)

def writeChecked (f : Format) (t : ZonedTime) : Except NoLocalTime String :=
  ZonedTime.checked [t] (f.write t)

@[simp] theorem writeChecked_eq_ok_iff {f : Format} {t : ZonedTime} {text : String} :
    f.writeChecked t = .ok text ↔ t.wall.InCalendar ∧ f.write t = text := by
  simp [writeChecked]

end Format

end Almanac
