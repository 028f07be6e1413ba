import Almanac.CommandLine.Options
import Almanac.CommandLine.Report
import Almanac.Listing
import Almanac.Text.Json

namespace Almanac.CommandLine

def versionText : String := "datemath 0.2.0\n"

/-- How a command ends. A breakdown is no failure that the program reports. -/
inductive Ending
  | success
  | failure (cause : Failure)
  | breakdown (cause : NoLocalTime)
deriving DecidableEq

structure Outcome where
  lines : List String
  ending : Ending
deriving DecidableEq

namespace Outcome

def printed (lines : List String) : Outcome := ⟨lines, .success⟩

def failed (cause : Failure) : Outcome := ⟨[], .failure cause⟩

def broken (cause : NoLocalTime) : Outcome := ⟨[], .breakdown cause⟩

def after (line : String) (o : Outcome) : Outcome := { o with lines := line :: o.lines }

def output (o : Outcome) : String := String.join (o.lines.map (· ++ "\n"))

def errors (o : Outcome) : String :=
  match o.ending with
  | .success => ""
  | .failure cause => cause.report
  | .breakdown _ => "local time out of range\n"

def exitCode (o : Outcome) : UInt32 :=
  match o.ending with
  | .success => 0
  | .failure _ => 1
  | .breakdown _ => 101

end Outcome

/-- Milliseconds since 1970, in which a leap second counts as the second after it. -/
def epochMillis (t : ZonedTime) : Int := t.utc.second * 1000 + t.utc.nano / 1000000

def resolvedLine (json : Bool) (expression : String) (t : ZonedTime) : String :=
  if json then
    (Json.object [("expression", .string expression), ("instant", .string (Rfc3339.write t)),
      ("epoch_millis", .number (epochMillis t)), ("zone", .string t.zone.name)]).compact
  else Rfc3339.write t

def resolveAll (json : Bool) (resolver : Resolver) : List String → Outcome
  | [] => .printed []
  | expression :: expressions =>
    match resolver.resolveChecked expression with
    | .error cause => .broken cause
    | .ok (.error e) =>
      .failed ((Failure.ofExpression e).under ("failed to resolve '" ++ expression ++ "'"))
    | .ok (.ok t) => (resolveAll json resolver expressions).after (resolvedLine json expression t)

def compileResolver (options : AnchorOptions) (clock : Reading) : Except Failure Resolver :=
  (Resolver.compile (options.settings clock)).mapError fun e ↦
    (Failure.ofPattern e).under ("invalid anchor pattern '" ++ options.format ++ "'")

def letterJson (l : Letter) : Json :=
  .object [("letter", .string l.toChar.toString), ("symbol", .string l.name),
    ("field", .string l.field.name), ("unit", .string l.unit.name)]

def analyze (json : Bool) (pattern : String) : Outcome :=
  match NamePattern.compile pattern with
  | .error e => .failed (.ofPattern e)
  | .ok compiled =>
    let lowest := compiled.lowest
    if json then
      .printed [(Json.object [("pattern", .string pattern), ("lowest", letterJson lowest),
        ("symbols", .array (compiled.letters.toList.map letterJson))]).pretty 0]
    else
      .printed ["pattern: " ++ pattern,
        "lowest:  " ++ lowest.toChar.toString ++ " (" ++ lowest.field.name ++ ", " ++
          lowest.unit.name ++ ")",
        "symbols: " ++ String.intercalate " " (compiled.letters.toChars.map Char.toString)]

def instant (resolver : Resolver) (text : String) : Except ExpressionError ZonedTime :=
  match Rfc3339.read? text with
  | some utc => .ok ⟨resolver.settings.zone, utc⟩
  | none => resolver.resolve text

def instantChecked (resolver : Resolver) (text : String) :
    Except NoLocalTime (Except ExpressionError ZonedTime) :=
  ZonedTime.checked (if (Rfc3339.read? text).isSome then [] else resolver.asked text)
    (instant resolver text)

def instantOrFailure (resolver : Resolver) (text message : String) :
    Except NoLocalTime (Except Failure ZonedTime) :=
  (instantChecked resolver text).map
    (·.mapError fun e ↦ (Failure.ofExpression e).under message)

def listing (pattern start stop : String) (options : AnchorOptions) (clock : Reading) :
    ExceptT Failure (Except NoLocalTime) Listing := do
  let compiled ← ExceptT.mk (.ok ((NamePattern.compile pattern).mapError Failure.ofPattern))
  let resolver ← ExceptT.mk (.ok (compileResolver options clock))
  let first ← ExceptT.mk (instantOrFailure resolver start "invalid --start")
  let last ← ExceptT.mk (instantOrFailure resolver stop "invalid --end")
  ExceptT.lift (Listing.betweenChecked compiled first last)

/-- The names of a listing on lines of their own, each printed before the next is sought. -/
def printNames : Nat → Listing → Outcome
  | 0, _ => .printed []
  | count + 1, l =>
    match l.stepChecked with
    | .error cause => .broken cause
    | .ok (none, _) => .printed []
    | .ok (some name, rest) => (printNames count rest).after name

def printListing (json : Bool) (l : Listing) : Outcome :=
  if json then
    match l.toListChecked with
    | .error cause => .broken cause
    | .ok names => .printed [(Json.array (names.map .string)).compact]
  else printNames (l.last - l.next + 1).toNat l

def Invocation.run (invocation : Invocation) (clock : Reading) : Outcome :=
  match invocation.command with
  | .resolve expressions options =>
    match compileResolver options clock with
    | .error failure => .failed failure
    | .ok resolver => resolveAll invocation.json resolver expressions
  | .analyze pattern => analyze invocation.json pattern
  | .patterns pattern start stop options =>
    match (listing pattern start stop options clock).run with
    | .error cause => .broken cause
    | .ok (.error failure) => .failed failure
    | .ok (.ok l) => printListing invocation.json l

end Almanac.CommandLine
