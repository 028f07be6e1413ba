import Almanac.FieldValues.Place
import Almanac.Format.Read
import Almanac.MathStep
import Almanac.Text.Quoted

namespace Almanac

inductive ExpressionError
  | pattern (cause : PatternError)
  | invalidDate (input pattern : String) (cause : ParseError)
  | math (cause : MathError)
deriving DecidableEq

def ExpressionError.message : ExpressionError → String
  | pattern cause => cause.message
  | invalidDate input form _ =>
    "failed to parse date field '" ++ input ++ "' with format '" ++ form ++ "'"
  | math cause => cause.message

structure Settings where
  /-- The pattern of dates that anchor an expression. -/
  pattern : String
  /-- The zone of dates, of now and of every rounding step. -/
  zone : Zone
  /-- The reading of UTC that the now token stands for. -/
  now : Reading
  nowToken : String
deriving DecidableEq

namespace Settings

def defaultPattern : String := "YYYY.MM.dd"

def defaultNowToken : String := "now"

def standard (now : Reading) : Settings := ⟨defaultPattern, .utc, now, defaultNowToken⟩

def describe (s : Settings) : String :=
  "DateMathConfig \x7b pattern: " ++ Text.quoted s.pattern ++ ", zone: " ++ s.zone.name ++
    ", now_token: " ++ Text.quoted s.nowToken ++ ", .. \x7d"

def nowInZone (s : Settings) : ZonedTime := ⟨s.zone, s.now⟩

end Settings

structure Resolver where
  settings : Settings
  format : Format
deriving DecidableEq

namespace Resolver

def compile (settings : Settings) : Except PatternError Resolver := do
  return ⟨settings, ← Format.compile settings.pattern⟩

def splitBars? : List Char → Option (List Char × List Char)
  | [] => none
  | '|' :: '|' :: suffix => some ([], suffix)
  | c :: cs => (splitBars? cs).map fun (date, suffix) ↦ (c :: date, suffix)

def anchor (r : Resolver) (date : String) : Except ExpressionError ZonedTime :=
  match r.format.read date >>= (·.place r.settings.zone) with
  | .ok t => .ok t
  | .error cause => .error (.invalidDate date r.settings.pattern cause)

def applyMath (suffix : List Char) (t : ZonedTime) : Except ExpressionError ZonedTime :=
  (MathStep.applyAll (String.ofList suffix) t).mapError .math

/-- The anchor of an expression, and the suffix behind it: either the now token directly followed by
the suffix, or a date with two bars in front of a suffix. -/
def start (r : Resolver) (expression : String) : Except ExpressionError (ZonedTime × List Char) :=
  match r.settings.nowToken.toList.isPrefixOf? expression.toList with
  | some suffix => .ok (r.settings.nowInZone, suffix)
  | none => do
    let (date, suffix) := (splitBars? expression.toList).getD (expression.toList, [])
    return (← r.anchor (String.ofList date), suffix)

def resolve (r : Resolver) (expression : String) : Except ExpressionError ZonedTime := do
  let (t, suffix) ← r.start expression
  applyMath suffix t

def asked (r : Resolver) (expression : String) : List ZonedTime :=
  match r.start expression with
  | .ok (t, suffix) => MathStep.asked (MathStep.readAll suffix) t
  | .error _ => []

def resolveChecked (r : Resolver) (expression : String) :
    Except NoLocalTime (Except ExpressionError ZonedTime) :=
  ZonedTime.checked (r.asked expression) (r.resolve expression)

end Resolver

def Settings.resolve (settings : Settings) (expression : String) :
    Except ExpressionError ZonedTime := do
  (← (Resolver.compile settings).mapError .pattern).resolve expression

def Settings.resolveChecked (settings : Settings) (expression : String) :
    Except NoLocalTime (Except ExpressionError ZonedTime) :=
  match Resolver.compile settings with
  | .ok r => r.resolveChecked expression
  | .error cause => .ok (.error (.pattern cause))

end Almanac
