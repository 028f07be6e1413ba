namespace Almanac

inductive PatternFault
  | noFields
  | unplaced (letter : Char)
  | unsupportedLetter (letter : Char)
  | tooManyLetters (letter : Char) (count : Nat)
  | reservedCharacter (c : Char)
deriving DecidableEq

structure PatternError where
  pattern : String
  fault : PatternFault
deriving DecidableEq

def PatternError.message (e : PatternError) : String :=
  match e.fault with
  | .noFields => "Pattern '" ++ e.pattern ++ "' does not contain any field symbols"
  | .unplaced letter =>
    "Field '" ++ letter.toString ++ "' in pattern '" ++ e.pattern ++
      "' does not have all of its dependencies"
  | .unsupportedLetter letter =>
    "Unsupported pattern letter '" ++ letter.toString ++ "' in pattern '" ++ e.pattern ++ "'"
  | .tooManyLetters letter count =>
    "Too many pattern letters '" ++ letter.toString ++ "' (" ++ toString count ++
      ") in pattern '" ++ e.pattern ++ "'"
  | .reservedCharacter c =>
    "Reserved character '" ++ c.toString ++ "' in pattern '" ++ e.pattern ++ "'"

end Almanac
