import Almanac.Resolver

namespace Almanac.CommandLine

structure Failure where
  message : String
  causes : List String
deriving DecidableEq

namespace Failure

def ofPattern (e : PatternError) : Failure := ⟨e.message, []⟩

def ofExpression (e : ExpressionError) : Failure :=
  match e with
  | .invalidDate _ _ cause => ⟨e.message, [cause.message]⟩
  | _ => ⟨e.message, []⟩

def under (message : String) (f : Failure) : Failure := ⟨message, f.message :: f.causes⟩

def hang (blanks : Nat) (text : String) : String :=
  String.ofList (text.toList.flatMap fun c ↦
    if c = '\n' then c :: List.replicate blanks ' ' else [c])

def numbered : Nat → List String → String
  | _, [] => ""
  | n, cause :: causes =>
    "\n" ++ String.ofList ((Nat.toDigits 10 n).leftpad 5 ' ') ++ ": " ++ hang 7 cause ++
      numbered (n + 1) causes

def report (f : Failure) : String :=
  "Error: " ++ f.message ++
    (match f.causes with
    | [] => ""
    | [cause] => "\n\nCaused by:\n    " ++ hang 4 cause
    | causes => "\n\nCaused by:" ++ numbered 0 causes) ++ "\n"

end Failure

end Almanac.CommandLine
