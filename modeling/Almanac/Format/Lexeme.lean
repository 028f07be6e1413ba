namespace Almanac

inductive Lexeme
  | text (c : Char)
  | letter (c : Char)
  | reserved (c : Char)
deriving DecidableEq

inductive Item
  | literal (text : List Char)
  | field (letter : Char) (run : Nat)
  | reserved (c : Char)
deriving DecidableEq

namespace Lexeme

def isReserved (c : Char) : Bool := c ∈ ['[', ']', '\x7b', '\x7d', '#']

def unquoted (c : Char) : Lexeme :=
  if c.isAlpha then letter c else if isReserved c then reserved c else text c

/-- The lexemes of a pattern, read from inside or outside quotes. Two quotes together stand for one,
and an unclosed quote reaches to the end. -/
def scan : (quoted : Bool) → List Char → List Lexeme
  | _, [] => []
  | quoted, '\'' :: '\'' :: cs => text '\'' :: scan quoted cs
  | quoted, '\'' :: cs => scan (!quoted) cs
  | true, c :: cs => text c :: scan true cs
  | false, c :: cs => unquoted c :: scan false cs

end Lexeme

namespace Item

def cons : Lexeme → List Item → List Item
  | .text c, literal text :: items => literal (c :: text) :: items
  | .text c, items => literal [c] :: items
  | .letter c, field letter run :: items =>
    if c = letter then field letter (run + 1) :: items else field c 1 :: field letter run :: items
  | .letter c, items => field c 1 :: items
  | .reserved c, items => reserved c :: items

def ofPattern (pattern : List Char) : List Item := (Lexeme.scan false pattern).foldr cons []

end Item

end Almanac
