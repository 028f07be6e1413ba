import Almanac.Resolver
import Almanac.Rfc3339
import Almanac.Zone.Table

namespace Almanac.CommandLine

structure AnchorOptions where
  format : String
  zone : Zone
  now : Option Reading
  nowToken : String

def AnchorOptions.settings (o : AnchorOptions) (clock : Reading) : Settings :=
  ⟨o.format, o.zone, o.now.getD clock, o.nowToken⟩

inductive Command
  | resolve (expressions : List String) (options : AnchorOptions)
  | analyze (pattern : String)
  | patterns (pattern start stop : String) (options : AnchorOptions)

structure Invocation where
  verbose : Bool
  json : Bool
  command : Command

inductive Request
  | run (invocation : Invocation)
  | help
  | version
  | misuse

inductive Verb
  | resolve | analyze | patterns
deriving DecidableEq

def Verb.ofString? : String → Option Verb
  | "resolve" => some resolve
  | "analyze" => some analyze
  | "patterns" => some patterns
  | _ => none

inductive Flag
  | verbose | json | help | version
deriving DecidableEq

inductive Opt
  | format | zone | now | nowToken | start | stop
deriving DecidableEq

inductive Key
  | flag (f : Flag)
  | opt (o : Opt)
deriving DecidableEq

/-- The key of a long name. Some keys belong to some commands only, and `none` stands for the place
before them. -/
def Key.ofLong? (verb : Option Verb) (name : String) : Option Key :=
  let anchored := verb = some .resolve ∨ verb = some .patterns
  match name with
  | "verbose" => some (.flag .verbose)
  | "json" => some (.flag .json)
  | "help" => some (.flag .help)
  | "version" => if verb = none then some (.flag .version) else none
  | "format" => if anchored then some (.opt .format) else none
  | "zone" => if anchored then some (.opt .zone) else none
  | "now" => if anchored then some (.opt .now) else none
  | "now-token" => if anchored then some (.opt .nowToken) else none
  | "start" => if verb = some .patterns then some (.opt .start) else none
  | "end" => if verb = some .patterns then some (.opt .stop) else none
  | _ => none

def Key.ofShort? (verb : Option Verb) (c : Char) : Option Key :=
  match c with
  | 'v' => ofLong? verb "verbose"
  | 'h' => ofLong? verb "help"
  | 'V' => ofLong? verb "version"
  | 'f' => ofLong? verb "format"
  | 'z' => ofLong? verb "zone"
  | _ => none

structure Given where
  flags : List Flag
  options : List (Opt × String)
  operands : List String

namespace Given

def empty : Given := ⟨[], [], []⟩

def addFlag? (g : Given) (f : Flag) : Option Given :=
  if f ∈ g.flags then none else some { g with flags := f :: g.flags }

def addOption? (g : Given) (o : Opt) (value : String) : Option Given :=
  let admitted : Bool := match o with
    | .zone => (Zone.find? value).isSome
    | .now => (Rfc3339.read? value).isSome
    | _ => true
  if (g.options.lookup o).isSome ∨ admitted = false then none
  else some { g with options := (o, value) :: g.options }

def addOperand (g : Given) (value : String) : Given := { g with operands := g.operands ++ [value] }

end Given

inductive Progress
  | go (given : Given)
  | wants (option : Opt) (given : Given)
  | command (verb : Verb) (given : Given)
  | done (request : Request)

def Progress.ofKey (given : Given) (value : Option String) : Key → Progress
  | .flag .help => if value.isNone then .done .help else .done .misuse
  | .flag .version => if value.isNone then .done .version else .done .misuse
  | .flag f =>
    match value, given.addFlag? f with
    | none, some given => .go given
    | _, _ => .done .misuse
  | .opt o =>
    match value with
    | none => .wants o given
    | some value => ((given.addOption? o value).map .go).getD (.done .misuse)

/-- A row of short flags, which an option ends: what follows it, but for an equals sign, is its
value. -/
def readShort (verb : Option Verb) (given : Given) : List Char → Progress
  | [] => .go given
  | c :: cs =>
    match Key.ofShort? verb c with
    | none => .done .misuse
    | some (.opt o) =>
      match cs with
      | [] => .wants o given
      | '=' :: value => .ofKey given (some (String.ofList value)) (.opt o)
      | value => .ofKey given (some (String.ofList value)) (.opt o)
    | some key =>
      match Progress.ofKey given none key with
      | .go given => readShort verb given cs
      | other => other

def readLong (verb : Option Verb) (given : Given) (text : List Char) : Progress :=
  let name := text.takeWhile (· ≠ '=')
  let value := match text.dropWhile (· ≠ '=') with
    | [] => none
    | _ :: value => some (String.ofList value)
  match Key.ofLong? verb (String.ofList name) with
  | none => .done .misuse
  | some key => .ofKey given value key

def readArgument (verb : Option Verb) (given : Given) (argument : String) : Progress :=
  match argument.toList with
  | '-' :: '-' :: text => readLong verb given text
  | ['-'] => operand
  | '-' :: text => readShort verb given text
  | _ => operand
where
  operand : Progress :=
    match verb with
    | some _ => .go (given.addOperand argument)
    | none =>
      match Verb.ofString? argument with
      | some verb => .command verb given
      | none => .done .misuse

def looksLikeOption (argument : String) : Bool :=
  match argument.toList with
  | ['-'] => false
  | '-' :: _ => true
  | _ => false

def Given.anchorOptions (g : Given) : AnchorOptions where
  format := (g.options.lookup .format).getD Settings.defaultPattern
  zone := ((g.options.lookup .zone).bind Zone.find?).getD .utc
  now := (g.options.lookup .now).bind Rfc3339.read?
  nowToken := (g.options.lookup .nowToken).getD Settings.defaultNowToken

def Given.command? (g : Given) : Verb → Option Command
  | .resolve => if g.operands.isEmpty then none else some (.resolve g.operands g.anchorOptions)
  | .analyze =>
    match g.operands with
    | [pattern] => some (.analyze pattern)
    | _ => none
  | .patterns =>
    match g.operands, g.options.lookup .start, g.options.lookup .stop with
    | [pattern], some start, some stop => some (.patterns pattern start stop g.anchorOptions)
    | _, _, _ => none

def Request.ofGiven (before : Given) (verb : Verb) (g : Given) : Request :=
  match g.command? verb with
  | none => .misuse
  | some command =>
    .run ⟨.verbose ∈ before.flags ++ g.flags, .json ∈ before.flags ++ g.flags, command⟩

/-- Read the arguments behind a command, of which `wanting` waits for its value. -/
def readCommand (before : Given) (verb : Verb) :
    (wanting : Option Opt) → Given → List String → Request
  | some _, _, [] => .misuse
  | some o, given, argument :: arguments =>
    if looksLikeOption argument then .misuse
    else match given.addOption? o argument with
      | none => .misuse
      | some given => readCommand before verb none given arguments
  | none, given, [] => .ofGiven before verb given
  | none, given, argument :: arguments =>
    if argument = "--" then .ofGiven before verb (arguments.foldl Given.addOperand given)
    else match readArgument (some verb) given argument with
      | .go given => readCommand before verb none given arguments
      | .wants o given => readCommand before verb (some o) given arguments
      | .command _ _ => .misuse
      | .done request => request

def readHelp : List String → Request
  | [] | ["help"] => .help
  | [topic] => if (Verb.ofString? topic).isSome then .help else .misuse
  | _ => .misuse

def readRequest (given : Given) : List String → Request
  | [] => .misuse
  | "help" :: topics => readHelp topics
  | argument :: arguments =>
    match readArgument none given argument with
    | .go given => readRequest given arguments
    | .command verb given => readCommand given verb none .empty arguments
    | .wants _ _ => .misuse
    | .done request => request

/-- Flags may stand before or after the command, options after it, and two dashes end both. -/
def Request.ofArguments (arguments : List String) : Request := readRequest .empty arguments

end Almanac.CommandLine
