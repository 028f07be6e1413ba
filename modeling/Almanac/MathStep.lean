import Almanac.Decimal
import Almanac.ZonedTime.Floor

namespace Almanac

structure MathStep where
  /-- Plus or minus one, and plus one when rounding. -/
  sign : Int
  round : Bool
  magnitude : Nat
  unit : CalendarUnit
deriving DecidableEq

inductive MathFault
  | unsupportedOperator (c : Char)
  | truncated
  | roundingMagnitude
  | unsupportedUnit (c : Char)
  | invalidMagnitude (digits : String)
  | outOfRange
deriving DecidableEq

structure MathError where
  suffix : String
  fault : MathFault
deriving DecidableEq

def MathError.message (e : MathError) : String :=
  match e.fault with
  | .unsupportedOperator c =>
    "operator '" ++ c.toString ++ "' not supported for date math '" ++ e.suffix ++ "'"
  | .truncated => "truncated date math '" ++ e.suffix ++ "'"
  | .roundingMagnitude =>
    "rounding '/' may only be used with an implicit magnitude of one in date math '" ++
      e.suffix ++ "'"
  | .unsupportedUnit c =>
    "unit '" ++ c.toString ++ "' not supported for date math '" ++ e.suffix ++ "'"
  | .invalidMagnitude digits =>
    "invalid magnitude '" ++ digits ++ "' in date math '" ++ e.suffix ++ "'"
  | .outOfRange => "date math '" ++ e.suffix ++ "' leaves the supported calendar range"

def CalendarUnit.ofMathLetter? : Char → Option CalendarUnit
  | 'y' => some .years
  | 'M' => some .months
  | 'w' => some .weeks
  | 'd' => some .days
  | 'H' | 'h' => some .hours
  | 'm' => some .minutes
  | 's' => some .seconds
  | _ => none

namespace MathStep

def maxMagnitude : Nat := 2147483647

def applyTo? (step : MathStep) (t : ZonedTime) : Option ZonedTime :=
  if step.round then t.floor? step.unit else t.plus? (step.sign * step.magnitude) step.unit

def operator? : Char → Option (Int × Bool)
  | '/' => some (1, true)
  | '+' => some (1, false)
  | '-' => some (-1, false)
  | _ => none

def ofParts (sign : Int) (round : Bool) (digits : List Char) (letter : Char) :
    Except MathFault MathStep :=
  let magnitude := if digits.isEmpty then 1 else Decimal.value digits
  if maxMagnitude < magnitude then .error (.invalidMagnitude (String.ofList digits))
  else if round ∧ magnitude ≠ 1 then .error .roundingMagnitude
  else match CalendarUnit.ofMathLetter? letter with
    | none => .error (.unsupportedUnit letter)
    | some unit => .ok ⟨sign, round, magnitude, unit⟩

def read (operator : Char) (text : List Char) : Except MathFault (MathStep × List Char) :=
  match operator? operator with
  | none => .error (.unsupportedOperator operator)
  | some (sign, round) =>
    match text.dropWhile Char.isDigit with
    | [] => .error .truncated
    | letter :: rest => do return (← ofParts sign round (text.takeWhile Char.isDigit) letter, rest)

theorem length_lt_of_read {operator : Char} {text rest : List Char} {step : MathStep}
    (h : read operator text = .ok (step, rest)) : rest.length < text.length := by
  unfold read at h
  split at h
  · cases h
  · split at h
    · cases h
    · rename_i letter tail hdrop
      have hlen := (List.dropWhile_sublist (l := text) Char.isDigit).length_le
      rw [hdrop, List.length_cons] at hlen
      cases hp : ofParts _ _ (text.takeWhile Char.isDigit) letter with
      | error e => rw [hp] at h; cases h
      | ok s => rw [hp] at h; cases h; omega

def readAll : List Char → List (Except MathFault MathStep)
  | [] => []
  | operator :: text =>
    match _h : read operator text with
    | .error fault => [.error fault]
    | .ok (step, rest) => .ok step :: readAll rest
termination_by text => text.length
decreasing_by
  have := length_lt_of_read _h
  simp only [List.length_cons]
  omega

/-- The instant after a row of steps. A malformed step shows only where those before it stay in the
calendar. -/
def applyRow : List (Except MathFault MathStep) → ZonedTime → Except MathFault ZonedTime
  | [], t => .ok t
  | .error fault :: _, _ => .error fault
  | .ok step :: row, t =>
    match step.applyTo? t with
    | none => .error .outOfRange
    | some next => applyRow row next

def steps (suffix : String) : List (Except MathError MathStep) :=
  (readAll suffix.toList).map fun step ↦ step.mapError (⟨suffix, ·⟩)

def parse (suffix : String) : Except MathError (List MathStep) :=
  ((readAll suffix.toList).mapM id).mapError (⟨suffix, ·⟩)

def applyAll (suffix : String) (anchor : ZonedTime) : Except MathError ZonedTime :=
  (applyRow (readAll suffix.toList) anchor).mapError (⟨suffix, ·⟩)

def asked : List (Except MathFault MathStep) → ZonedTime → List ZonedTime
  | [], _ => []
  | .error _ :: _, _ => []
  | .ok step :: row, t =>
    t :: match step.applyTo? t with
      | none => []
      | some next => asked row next

def applyAllChecked (suffix : String) (anchor : ZonedTime) :
    Except NoLocalTime (Except MathError ZonedTime) :=
  ZonedTime.checked (asked (readAll suffix.toList) anchor) (applyAll suffix anchor)

end MathStep

end Almanac
