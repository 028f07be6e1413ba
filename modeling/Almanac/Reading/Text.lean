import Almanac.Decimal
import Almanac.Reading

namespace Almanac

def Date.yearText (year : Int) : List Char :=
  if 0 ≤ year ∧ year ≤ 9999 then Decimal.padded 4 year.toNat
  else (if year < 0 then '-' else '+') :: Decimal.padded 4 year.natAbs

def Date.text (d : Date) : List Char :=
  yearText d.year ++ '-' :: Decimal.padded 2 d.month.toNat ++ '-' :: Decimal.padded 2 d.day.toNat

namespace Reading

def fractionText (nano : Nat) : List Char :=
  if nano = 0 then []
  else if nano % 1000000 = 0 then '.' :: Decimal.padded 3 (nano / 1000000)
  else if nano % 1000 = 0 then '.' :: Decimal.padded 6 (nano / 1000)
  else '.' :: Decimal.padded 9 nano

/-- The time of day, where a leap second is the second after the one that holds it. -/
def timeText (r : Reading) : List Char :=
  let leap := if r.IsLeapSecond then 1 else 0
  Decimal.padded 2 r.hour.toNat ++ ':' :: Decimal.padded 2 r.minute.toNat ++
    ':' :: Decimal.padded 2 (r.secondOfMinute.toNat + leap) ++
    fractionText (r.nano - leap * 1000000000)

def text (separator : Char) (r : Reading) : List Char := r.date.text ++ separator :: r.timeText

end Reading

end Almanac
