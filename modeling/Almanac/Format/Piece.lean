import Almanac.Letter

namespace Almanac

inductive Piece
  | literal (text : List Char)
  /-- A number of at least `least` digits. At most `most` are read. -/
  | number (letter : Letter) (least most : Nat)
  /-- The last two digits of a year, read as a year from 2000 on. -/
  | shortYear (letter : Letter)
  | fraction (width : Nat)
  /-- One of the names of consecutive values, the first of which is `first`. -/
  | name (letter : Letter) (names : List String) (first : Int)
deriving DecidableEq

namespace Letter

def fullMonths : List String :=
  ["January", "February", "March", "April", "May", "June", "July", "August", "September", "October",
    "November", "December"]

def shortMonths : List String :=
  ["Jan", "Feb", "Mar", "Apr", "May", "Jun", "Jul", "Aug", "Sep", "Oct", "Nov", "Dec"]

def narrowMonths : List String := ["J", "F", "M", "A", "M", "J", "J", "A", "S", "O", "N", "D"]

def fullDays : List String :=
  ["Monday", "Tuesday", "Wednesday", "Thursday", "Friday", "Saturday", "Sunday"]

def shortDays : List String := ["Mon", "Tue", "Wed", "Thu", "Fri", "Sat", "Sun"]

def narrowDays : List String := ["M", "T", "W", "T", "F", "S", "S"]

def fullQuarters : List String := ["1st quarter", "2nd quarter", "3rd quarter", "4th quarter"]

def shortQuarters : List String := ["Q1", "Q2", "Q3", "Q4"]

def fullEras : List String := ["Before Christ", "Anno Domini"]

def shortEras : List String := ["BC", "AD"]

def narrowEras : List String := ["B", "A"]

def halfDays : List String := ["AM", "PM"]

def maxRun : Letter → Nat
  | era | standaloneQuarter | quarterOfYear | standaloneMonth | monthOfYear | dayOfWeek
  | localizedDayOfWeek | standaloneDayOfWeek => 5
  | weekBasedYear | year | yearOfEra | nanoOfDay | milliOfDay => 19
  | fractionOfSecond | nanoOfSecond => 9
  | dayOfYear => 3
  | alignedWeekOfMonth | alignedDayOfWeekInMonth | amPmOfDay => 1
  | _ => 2

def isSigned (l : Letter) : Bool := l = weekBasedYear ∨ l = year

def piece (l : Letter) (run : Nat) : Piece :=
  match l with
  | weekBasedYear | year | yearOfEra => if run = 2 then .shortYear l else .number l run (max run 10)
  | era =>
    match run with
    | 4 => .name l fullEras 0
    | 5 => .name l narrowEras 0
    | _ => .name l shortEras 0
  | standaloneQuarter | quarterOfYear =>
    match run with
    | 1 | 5 => .number l 1 1
    | 2 => .number l 2 2
    | 3 => .name l shortQuarters 1
    | _ => .name l fullQuarters 1
  | standaloneMonth | monthOfYear =>
    match run with
    | 1 => .number l 1 2
    | 2 => .number l 2 2
    | 3 => .name l shortMonths 1
    | 4 => .name l fullMonths 1
    | _ => .name l narrowMonths 1
  | localizedDayOfWeek | standaloneDayOfWeek =>
    match run with
    | 1 => .number l 1 1
    | 2 => .number l 2 2
    | 4 => .name l fullDays 1
    | 5 => .name l narrowDays 1
    | _ => .name l shortDays 1
  | dayOfWeek =>
    match run with
    | 4 => .name l fullDays 1
    | 5 => .name l narrowDays 1
    | _ => .name l shortDays 1
  | amPmOfDay => .name l halfDays 0
  | fractionOfSecond => .fraction run
  | nanoOfSecond => .number l run 9
  | nanoOfDay | milliOfDay => .number l run (max run 18)
  | dayOfYear => .number l run 3
  | alignedWeekOfMonth | alignedDayOfWeekInMonth => .number l 1 1
  | _ => if run = 1 then .number l 1 2 else .number l 2 2

end Letter

namespace Piece

def letter? : Piece → Option Letter
  | literal _ => none
  | number l _ _ | shortYear l | name l _ _ => some l
  | fraction _ => some .fractionOfSecond

end Piece

end Almanac
