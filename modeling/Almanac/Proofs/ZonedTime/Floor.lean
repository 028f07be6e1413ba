import Almanac.Listing
import Almanac.Proofs.Date.YearEnd
import Almanac.Proofs.Zone

namespace Almanac

def Date.floor? (d : Date) : CalendarUnit → Option Date
  | .weeks => d.weekStart.covered?
  | .months => ofYmd? d.year d.month 1
  | .quarters => ofYmd? d.year (3 * (d.quarter - 1) + 1) 1
  | .years => ofYmd? d.year 1 1
  | .weekBasedYears => ofWeekDate? d.weekYear 1 1
  | .eras => ofYmd? (if 1 ≤ d.year then 1 else 0) 1 1
  | _ => some d

theorem Date.quarter_floor? {d date : Date} (h : d.floor? .quarters = some date) :
    date.quarter = d.quarter := by
  have hb := d.quarter_bounds
  have hl := @monthLength_bounds d.year (3 * (d.quarter - 1) + 1) (by omega) (by omega)
  rw [eq_ofYmd_of_ofYmd? h, quarter, month_ofYmd (by omega) (by omega) (by omega) (by omega)]
  omega

/-- The unit to whose period a field floors an instant. Years of every kind start on January 1. -/
def DateField.floorUnit : DateField → CalendarUnit
  | .weekBasedYear => .years
  | field => field.unit

namespace Reading

def flooredTime (r : Reading) : CalendarUnit → Int × Nat
  | .nanos => (r.secondOfDay, r.nano)
  | .millis => (r.secondOfDay, r.nano / 1000000 * 1000000)
  | .seconds => (r.secondOfDay / 1 * 1, 0)
  | .minutes => (r.secondOfDay / 60 * 60, 0)
  | .hours => (r.secondOfDay / 3600 * 3600, 0)
  | .halfDays => (r.secondOfDay / 43200 * 43200, 0)
  | _ => (0, 0)

def floor? (r : Reading) (unit : CalendarUnit) : Option Reading :=
  (r.date.floor? unit).map fun date ↦ .ofDate date (r.flooredTime unit).1 (r.flooredTime unit).2

end Reading

namespace ZonedTime

theorem floor?_eq (t : ZonedTime) {unit : CalendarUnit} (hu : unit ≠ .nanos) :
    t.floor? unit = (t.wall.floor? unit).bind t.reattach? := by
  rw [Reading.floor?, Option.bind_map]
  cases unit with
  | nanos => exact absurd rfl hu
  | millis =>
    have hr := Reading.ofDate_date ⟨t.wall.second, t.wall.nano / 1000000 * 1000000⟩
    exact congrArg t.reattach? hr.symm
  | _ => rfl

/-- Every floor is the start of the period on the wall clock, in a zone where readings lead back. -/
theorem floor?_eq_of_regular {t : ZonedTime} {unit : CalendarUnit}
    (h : unit = .nanos → t.zone.Regular ∧ t.utc.InCalendar) :
    t.floor? unit = (t.wall.floor? unit).bind t.reattach? := by
  by_cases hu : unit = .nanos
  · obtain ⟨hz, ht⟩ := h hu
    subst hu
    rw [Reading.floor?, Option.bind_map]
    change some t = t.reattach? (.ofDate t.wall.date t.wall.secondOfDay t.wall.nano)
    simp [reattach?_wall hz ht]
  · exact floor?_eq t hu

theorem floorTo?_eq (t : ZonedTime) (letter : Letter) :
    t.floorTo? letter = t.floor? letter.field.floorUnit := by
  cases letter <;> rfl

end ZonedTime

end Almanac
