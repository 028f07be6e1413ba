import Almanac.DateField
import Almanac.Reading.Text

namespace Almanac

inductive Expectation
  | literal | digits | fraction | name
deriving DecidableEq

def Expectation.message : Expectation → String
  | literal => "literal text"
  | digits => "digits"
  | fraction => "fraction digits"
  | name => "text"

inductive Unrepresentable
  | week (number weekYear : Int)
  | dayOfYear (number year : Int)
  | date (year month day : Int)
  /-- A wall-clock reading with no instant in the zone of that name. -/
  | wall (reading : Reading) (zone : String)
deriving DecidableEq

def Unrepresentable.message : Unrepresentable → String
  | week number weekYear => "week " ++ toString number ++ " of " ++ toString weekYear
  | dayOfYear number year => "day " ++ toString number ++ " of " ++ toString year
  | date year month day =>
    String.ofList (Decimal.signed 4 year ++ '-' :: Decimal.signed 2 month ++
      '-' :: Decimal.signed 2 day)
  | wall reading zone => String.ofList (reading.text ' ') ++ " in " ++ zone

/-- Why a text gives no date. Positions count bytes of the text. -/
inductive ParseError
  | mismatch (position : Nat) (expected : Expectation)
  | trailingText (position : Nat) (rest : String)
  | conflict (field : DateField) (first second : Int)
  | outOfRange (field : DateField) (value : Int)
  | unrepresentable (what : Unrepresentable)
deriving DecidableEq

def ParseError.message : ParseError → String
  | mismatch position expected =>
    "expected " ++ expected.message ++ " at position " ++ toString position
  | trailingText position rest =>
    "unparsed text found at position " ++ toString position ++ ": '" ++ rest ++ "'"
  | conflict field first second =>
    "conflicting values for " ++ field.name ++ ": " ++ toString first ++ " and " ++ toString second
  | outOfRange field value => "value " ++ toString value ++ " is out of range for " ++ field.name
  | unrepresentable what => "cannot represent " ++ what.message ++ " in the calendar"

structure FieldValues where
  entries : List (DateField × Int)
deriving DecidableEq

namespace FieldValues

def empty : FieldValues := ⟨[]⟩

def get? (v : FieldValues) (field : DateField) : Option Int := v.entries.lookup field

def contains (v : FieldValues) (field : DateField) : Bool := (v.get? field).isSome

def assign (v : FieldValues) (field : DateField) (value : Int) : Except ParseError FieldValues :=
  match v.get? field with
  | none => .ok ⟨(field, value) :: v.entries⟩
  | some first => if first = value then .ok v else .error (.conflict field first value)

def toList (v : FieldValues) : List (DateField × Int) :=
  DateField.all.filterMap fun field ↦ (v.get? field).map (field, ·)

@[simp] theorem get?_empty (field : DateField) : empty.get? field = none := rfl

theorem get?_assign {v w : FieldValues} {field other : DateField} {value : Int}
    (h : v.assign field value = .ok w) :
    w.get? other = if other = field then some value else v.get? other := by
  unfold assign at h
  split at h
  · cases h
    by_cases hf : other = field
    · simp [get?, hf]
    · simp [get?, List.lookup_cons, beq_false_of_ne hf, hf]
  · split at h
    · cases h
      split <;> simp_all
    · cases h

end FieldValues

end Almanac
