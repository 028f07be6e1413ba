import Almanac.Date

namespace Almanac

/-- A clock reading: seconds since that clock showed 1970-01-01T00:00:00, and nanoseconds of the
second. A leap second is the second before it with a fraction of a second or more. -/
structure Reading where
  second : Int
  nano : Nat
deriving DecidableEq

namespace Reading

def secondsPerDay : Int := 86400

def nanosPerSecond : Int := 1000000000

def ofDate (date : Date) (secondOfDay : Int) (nano : Nat) : Reading :=
  ⟨date.epochDay * secondsPerDay + secondOfDay, nano⟩

def ofNanos (nanos : Int) : Reading := ⟨nanos / nanosPerSecond, (nanos % nanosPerSecond).toNat⟩

def toNanos (r : Reading) : Int := r.second * nanosPerSecond + r.nano

def date (r : Reading) : Date := ⟨r.second / secondsPerDay⟩

def secondOfDay (r : Reading) : Int := r.second % secondsPerDay

def hour (r : Reading) : Int := r.secondOfDay / 3600

def minute (r : Reading) : Int := r.secondOfDay % 3600 / 60

def secondOfMinute (r : Reading) : Int := r.secondOfDay % 60

def IsLeapSecond (r : Reading) : Prop := nanosPerSecond ≤ r.nano

instance (r : Reading) : Decidable r.IsLeapSecond :=
  inferInstanceAs (Decidable (nanosPerSecond ≤ (r.nano : Int)))

/-- The nanosecond of the second, held at its last value through a leap second. -/
def clippedNano (r : Reading) : Nat := min r.nano 999999999

def InCalendar (r : Reading) : Prop := r.date.InCalendar

instance (r : Reading) : Decidable r.InCalendar := inferInstanceAs (Decidable r.date.InCalendar)

def covered? (r : Reading) : Option Reading := if r.InCalendar then some r else none

instance : LT Reading := ⟨fun a b ↦ a.second < b.second ∨ a.second = b.second ∧ a.nano < b.nano⟩
instance : LE Reading := ⟨fun a b ↦ a.second < b.second ∨ a.second = b.second ∧ a.nano ≤ b.nano⟩
instance (a b : Reading) : Decidable (a < b) :=
  inferInstanceAs (Decidable (a.second < b.second ∨ a.second = b.second ∧ a.nano < b.nano))
instance (a b : Reading) : Decidable (a ≤ b) :=
  inferInstanceAs (Decidable (a.second < b.second ∨ a.second = b.second ∧ a.nano ≤ b.nano))

def EarlierInDay (a b : Reading) : Prop :=
  a.secondOfDay < b.secondOfDay ∨ a.secondOfDay = b.secondOfDay ∧ a.nano < b.nano

instance (a b : Reading) : Decidable (EarlierInDay a b) :=
  inferInstanceAs (Decidable
    (a.secondOfDay < b.secondOfDay ∨ a.secondOfDay = b.secondOfDay ∧ a.nano < b.nano))

/-- The same moment on a clock that is whole seconds ahead. A leap second stays one. -/
def shift (r : Reading) (seconds : Int) : Reading := ⟨r.second + seconds, r.nano⟩

/-- The reading after a lapse of nanoseconds. Within a leap second only the fraction changes; a
lapse of a second or more leaves it, forwards from the second before and backwards from the second
after. -/
def advance (r : Reading) (lapse : Int) : Reading :=
  if r.IsLeapSecond then
    let seconds := lapse.tdiv nanosPerSecond
    let rest := lapse.tmod nanosPerSecond
    if 0 < seconds ∨ 0 < rest ∧ 2 * nanosPerSecond ≤ r.nano + rest then
      ofNanos (r.toNanos - nanosPerSecond + lapse)
    else if seconds < 0 then ofNanos (r.toNanos + lapse)
    else ⟨r.second, (r.nano + rest).toNat⟩
  else ofNanos (r.toNanos + lapse)

/-- The nanoseconds from `b` to `a`. A leap second counts where the day's seconds lie on either side
of it. -/
def since (a b : Reading) : Int :=
  let leap : Int :=
    if b.secondOfDay < a.secondOfDay ∧ b.IsLeapSecond then 1
    else if a.secondOfDay < b.secondOfDay ∧ a.IsLeapSecond then -1
    else 0
  a.toNanos - b.toNanos + leap * nanosPerSecond

@[simp] theorem toNanos_ofNanos (nanos : Int) : (ofNanos nanos).toNanos = nanos := by
  simp only [ofNanos, toNanos, nanosPerSecond]
  omega

theorem ofNanos_toNanos {r : Reading} (h : ¬ r.IsLeapSecond) : ofNanos r.toNanos = r := by
  cases r
  simp only [IsLeapSecond, ofNanos, toNanos, nanosPerSecond, mk.injEq] at *
  omega

@[simp] theorem ofDate_date (r : Reading) : ofDate r.date r.secondOfDay r.nano = r := by
  cases r
  simp only [ofDate, date, secondOfDay, secondsPerDay, mk.injEq, and_true]
  omega

@[simp] theorem date_ofDate {date : Date} {second : Int} {nano : Nat} (h₁ : 0 ≤ second)
    (h₂ : second < secondsPerDay) :
    (ofDate date second nano).date = date := by
  cases date
  simp only [ofDate, Reading.date, secondsPerDay, Date.mk.injEq] at *
  omega

@[simp] theorem date_midnight (date : Date) :
    (ofDate date 0 0).date = date := date_ofDate (by decide) (by decide)

@[simp] theorem toNanos_advance {r : Reading} (h : ¬ r.IsLeapSecond) (lapse : Int) :
    (r.advance lapse).toNanos = r.toNanos + lapse := by
  simp [advance, if_neg h]

end Reading

end Almanac
