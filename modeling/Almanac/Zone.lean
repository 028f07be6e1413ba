import Almanac.Reading

namespace Almanac

/-- From the UTC second `since` on, wall clocks are `offset` seconds ahead of UTC. -/
structure OffsetChange where
  since : Int
  offset : Int
deriving DecidableEq

structure Zone where
  name : String
  first : Int
  changes : List OffsetChange
deriving DecidableEq

inductive WallOffsets
  | gap
  | once (offset : Int)
  | twice (earlier later : Int)
deriving DecidableEq

namespace Zone

def utc : Zone := ⟨"UTC", 0, []⟩

instance : Inhabited Zone := ⟨utc⟩

def offsetFrom (current : Int) : List OffsetChange → Int → Int
  | [], _ => current
  | change :: later, second =>
    if change.since ≤ second then offsetFrom change.offset later second else current

def offsetAt (zone : Zone) (second : Int) : Int := offsetFrom zone.first zone.changes second

/-- The offsets that show a wall-clock second, where `current` holds until the first of the changes
and shows no second after the one sought. A change back shows the last seconds before it a second
time. -/
def offsetsFrom (current : Int) : List OffsetChange → Int → WallOffsets
  | [], _ => .once current
  | change :: later, wall =>
    if wall < change.since + current then
      if change.since + change.offset ≤ wall then .twice current change.offset else .once current
    else if wall < change.since + change.offset then .gap
    else offsetsFrom change.offset later wall

def wallOffsets (zone : Zone) (wall : Int) : WallOffsets := offsetsFrom zone.first zone.changes wall

/-- Offsets of less than a day either way, and changes at least two days apart. -/
def WellSpaced (zone : Zone) : Prop :=
  (-86400 < zone.first ∧ zone.first < 86400) ∧
  (∀ change ∈ zone.changes, -86400 < change.offset ∧ change.offset < 86400) ∧
  zone.changes.Pairwise fun a b ↦ a.since + 172800 ≤ b.since

instance (zone : Zone) : Decidable zone.WellSpaced := by unfold WellSpaced; infer_instance

end Zone

end Almanac
