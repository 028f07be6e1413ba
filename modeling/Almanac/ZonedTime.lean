import Almanac.Zone

namespace Almanac

structure ZonedTime where
  zone : Zone
  utc : Reading
deriving DecidableEq

namespace ZonedTime

def offset (t : ZonedTime) : Int := t.zone.offsetAt t.utc.second

/-- What the clock of the zone shows, even where that is a day outside the calendar. -/
def wall (t : ZonedTime) : Reading := t.utc.shift t.offset

def inZone (t : ZonedTime) (zone : Zone) : ZonedTime := ⟨zone, t.utc⟩

def covered? (zone : Zone) (utc : Reading) : Option ZonedTime := utc.covered?.map (⟨zone, ·⟩)

end ZonedTime

/-- The breakdown at an instant of which the local time is asked, but lies outside the calendar. -/
structure NoLocalTime where
  instant : ZonedTime
deriving DecidableEq

namespace ZonedTime

/-- A result for which the local times of instants are asked, or the breakdown at the first that has
none. -/
def checked {α : Type} (asked : List ZonedTime) (a : α) : Except NoLocalTime α :=
  match asked.find? fun t ↦ ¬ t.wall.InCalendar with
  | some t => .error ⟨t⟩
  | none => .ok a

@[simp] theorem checked_map {α β : Type} (asked : List ZonedTime) (a : α) (f : α → β) :
    (checked asked a).map f = checked asked (f a) := by
  unfold checked
  split <;> rfl

@[simp] theorem checked_eq_ok_iff {α : Type} {asked : List ZonedTime} {a b : α} :
    checked asked a = .ok b ↔ (∀ t ∈ asked, t.wall.InCalendar) ∧ a = b := by
  rw [checked]
  split <;> rename_i hfind
  · have hshows := List.find?_some hfind
    simp only [decide_eq_true_eq] at hshows
    exact iff_of_false nofun fun h ↦ hshows (h.1 _ (List.mem_of_find?_eq_some hfind))
  · have hall := List.find?_eq_none.1 hfind
    simp only [decide_eq_true_eq, Decidable.not_not] at hall
    exact ⟨fun h ↦ ⟨hall, Except.ok.inj h⟩, fun h ↦ congrArg Except.ok h.2⟩

theorem checked_bind_eq_ok_iff {α β : Type} {asked : List ZonedTime} {a : α}
    {f : α → Except NoLocalTime β} {b : β} :
    checked asked a >>= f = .ok b ↔ (∀ t ∈ asked, t.wall.InCalendar) ∧ f a = .ok b := by
  by_cases hall : ∀ t ∈ asked, t.wall.InCalendar
  · rw [checked_eq_ok_iff.2 ⟨hall, rfl⟩]
    exact (and_iff_right hall).symm
  · cases hc : checked asked a with
    | error e => exact iff_of_false nofun fun h ↦ hall h.1
    | ok c => exact absurd (checked_eq_ok_iff.1 hc).1 hall

end ZonedTime

namespace Zone

def pushForward? (zone : Zone) (wall : Reading) : Option ZonedTime := do
  let dayBefore ← (wall.advance (-(Reading.secondsPerDay * Reading.nanosPerSecond))).covered?
  ZonedTime.covered? zone
    (wall.advance (-(zone.offsetAt dayBefore.second * Reading.nanosPerSecond)))

/-- The instant of a wall-clock reading. A reading shown twice keeps the preferred offset if that is
the later one, otherwise it takes the earlier; one whose instants the calendar does not all cover
counts as not shown. -/
def attach? (zone : Zone) (wall : Reading) (preferred : Option Int) : Option ZonedTime :=
  match zone.wallOffsets wall.second with
  | .once offset => (ZonedTime.covered? zone (wall.shift (-offset))).or (zone.pushForward? wall)
  | .twice earlier later =>
    if (wall.shift (-earlier)).InCalendar ∧ (wall.shift (-later)).InCalendar then
      some ⟨zone, wall.shift (-(if preferred = some later then later else earlier))⟩
    else zone.pushForward? wall
  | .gap => zone.pushForward? wall

def localize? (zone : Zone) (wall : Reading) : Option ZonedTime := zone.attach? wall none

end Zone

end Almanac
