import Almanac.Reading.Text
import Almanac.ZonedTime

namespace Almanac.Rfc3339

/-- The offset of a clock from UTC, rounded to minutes. -/
def offsetText (offset : Int) : List Char :=
  if offset = 0 then ['Z']
  else
    let minutes := (offset.natAbs + 30) / 60
    (if offset < 0 then '-' else '+') :: Decimal.padded 2 (minutes / 60) ++
      ':' :: Decimal.padded 2 (minutes % 60)

def write (t : ZonedTime) : String := String.ofList (t.wall.text 'T' ++ offsetText t.offset)

def number? (width : Nat) (text : List Char) : Option (Int × List Char) :=
  if Decimal.runLength (text.take width) = width then
    some (Decimal.value (text.take width), text.drop width)
  else none

def skip? (c : Char) (text : List Char) : Option (List Char) :=
  match text with
  | head :: rest => if head = c then some rest else none
  | [] => none

def skipSeparator? (text : List Char) : Option (List Char) :=
  match text with
  | head :: rest => if head = 'T' ∨ head = 't' ∨ head = ' ' then some rest else none
  | [] => none

def fraction? (text : List Char) : Option (Nat × List Char) :=
  match text with
  | '.' :: cs =>
    let digits := cs.takeWhile Char.isDigit
    if digits.isEmpty then none
    else some (Decimal.value ((digits.take 9).rightpad 9 '0'), cs.dropWhile Char.isDigit)
  | cs => some (0, cs)

/-- The seconds a clock is ahead of UTC, less than a day either way, where nothing may follow. The
minus sign proper counts as the hyphen. -/
def offset? (text : List Char) : Option Int :=
  match text with
  | ['Z'] | ['z'] => some 0
  | sign :: cs => do
    let (hours, cs) ← number? 2 cs
    let (minutes, cs) ← number? 2 (← skip? ':' cs)
    if cs ≠ [] ∨ 23 < hours ∨ 59 < minutes then none
    else if sign = '+' then some (hours * 3600 + minutes * 60)
    else if sign = '-' ∨ sign = '−' then some (-(hours * 3600 + minutes * 60))
    else none
  | [] => none

/-- The reading of UTC that a text stands for. Second 60 is a leap second. -/
def read? (text : String) : Option Reading := do
  let (year, cs) ← number? 4 text.toList
  let (month, cs) ← number? 2 (← skip? '-' cs)
  let (day, cs) ← number? 2 (← skip? '-' cs)
  let (hour, cs) ← number? 2 (← skipSeparator? cs)
  let (minute, cs) ← number? 2 (← skip? ':' cs)
  let (second, cs) ← number? 2 (← skip? ':' cs)
  let (nano, cs) ← fraction? cs
  let offset ← offset? cs
  let date ← Date.ofYmd? year month day
  if 23 < hour ∨ 59 < minute ∨ 60 < second then none
  let leap := if second = 60 then 1 else 0
  let secondOfDay := hour * 3600 + minute * 60 + second - leap
  return (Reading.ofDate date secondOfDay (nano + leap.toNat * 1000000000)).shift (-offset)

end Almanac.Rfc3339
