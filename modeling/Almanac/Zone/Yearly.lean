import Almanac.Date.Week
import Almanac.Zone

namespace Almanac

/-- A change on the first Sunday from a day of a month on, some seconds after that Sunday begins in
UTC. -/
structure SundayRule where
  month : Int
  day : Int
  second : Int
  offset : Int
deriving DecidableEq

def SundayRule.change (rule : SundayRule) (year : Int) : OffsetChange :=
  let earliest := Date.ofYmd year rule.month rule.day
  let sunday := earliest.epochDay + (7 - earliest.weekday)
  ⟨sunday * Reading.secondsPerDay + rule.second, rule.offset⟩

namespace Zone

def single (entries : List (Int × Int)) : List OffsetChange :=
  entries.map fun (since, offset) ↦ ⟨since, offset⟩

def yearly (first last : Nat) (early late : SundayRule) : List OffsetChange :=
  (List.range' first (last + 1 - first)).flatMap fun (year : Nat) ↦
    [early.change year, late.change year]

end Zone

end Almanac
