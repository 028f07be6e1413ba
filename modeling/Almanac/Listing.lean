import Almanac.NamePattern
import Almanac.ZonedTime.Distance
import Almanac.ZonedTime.Floor

namespace Almanac

/-- The start of the period that a letter names. Years of every kind start on January 1. -/
def ZonedTime.floorTo? (t : ZonedTime) : Letter → Option ZonedTime
  | .era => t.floor? .eras
  | .weekBasedYear | .year | .yearOfEra => t.floor? .years
  | .standaloneQuarter | .quarterOfYear => t.floor? .quarters
  | .standaloneMonth | .monthOfYear => t.floor? .months
  | .alignedWeekOfMonth | .weekOfWeekBasedYear => t.floor? .weeks
  | letter => t.floor? letter.unit

def ZonedTime.floorToChecked (t : ZonedTime) (letter : Letter) :
    Except NoLocalTime (Option ZonedTime) := checked [t] (t.floorTo? letter)

/-- The names still to come: those at `start` moved by `next` to `last` units. Only the steps are
counted from floored instants. -/
structure Listing where
  pattern : NamePattern
  start : ZonedTime
  next : Int
  last : Int

namespace Listing

def between (pattern : NamePattern) (start stop : ZonedTime) : Listing :=
  let last := match start.floorTo? pattern.lowest, stop.floorTo? pattern.lowest with
    | some first, some final => first.unitsUntil final pattern.unit
    | _, _ => -1
  ⟨pattern, start, 0, last⟩

def instant? (l : Listing) : Option ZonedTime := l.start.plus? l.next l.pattern.unit

def step (l : Listing) : Option String × Listing :=
  if l.last < l.next then (none, l)
  else match l.instant? with
    | some t => (some (l.pattern.write t), { l with next := l.next + 1 })
    | none => (none, { l with next := min (l.last + 1) Count.greatest })

/-- The number of names still to come, if none of them leaves the calendar. Counts that do not fit
are zero. -/
def remaining (l : Listing) : Nat :=
  if l.last - l.next + 1 ≤ Count.greatest then (l.last - l.next + 1).toNat else 0

def take : Nat → Listing → List String × Listing
  | 0, l => ([], l)
  | count + 1, l =>
    match l.step with
    | (none, rest) => ([], rest)
    | (some name, rest) =>
      let (names, rest) := take count rest
      (name :: names, rest)

def nth : Nat → Listing → Option String × Listing
  | 0, l => l.step
  | skipped + 1, l =>
    match l.step with
    | (none, rest) => (none, rest)
    | (some _, rest) => nth skipped rest

def toList (l : Listing) : List String := (l.take (l.last - l.next + 1).toNat).1

def askedBetween (pattern : NamePattern) (start stop : ZonedTime) : List ZonedTime :=
  start :: stop :: match start.floorTo? pattern.lowest, stop.floorTo? pattern.lowest with
    | some first, some final => first.askedByCount final pattern.unit
    | _, _ => []

def betweenChecked (pattern : NamePattern) (start stop : ZonedTime) : Except NoLocalTime Listing :=
  ZonedTime.checked (askedBetween pattern start stop) (between pattern start stop)

/-- The instants whose local times are asked for a number of names to come: the first for each step,
and those that are written. -/
def asked : Nat → Listing → List ZonedTime
  | 0, _ => []
  | count + 1, l =>
    if l.last < l.next then []
    else l.start :: match l.instant? with
      | none => []
      | some t => t :: asked count { l with next := l.next + 1 }

def stepChecked (l : Listing) : Except NoLocalTime (Option String × Listing) :=
  ZonedTime.checked (l.asked 1) l.step

def takeChecked (count : Nat) (l : Listing) : Except NoLocalTime (List String × Listing) :=
  ZonedTime.checked (l.asked count) (l.take count)

def nthChecked (skipped : Nat) (l : Listing) : Except NoLocalTime (Option String × Listing) :=
  ZonedTime.checked (l.asked (skipped + 1)) (l.nth skipped)

def toListChecked (l : Listing) : Except NoLocalTime (List String) :=
  ZonedTime.checked (l.asked (l.last - l.next + 1).toNat) l.toList

end Listing

def NamePattern.names (p : NamePattern) (start stop : ZonedTime) : List String :=
  (Listing.between p start stop).toList

def NamePattern.namesChecked (p : NamePattern) (start stop : ZonedTime) :
    Except NoLocalTime (List String) := do (← Listing.betweenChecked p start stop).toListChecked

def namesBetween (pattern : String) (start stop : ZonedTime) :
    Except PatternError (List String) := do
  return (← NamePattern.compile pattern).names start stop

end Almanac
