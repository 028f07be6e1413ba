import Almanac.Format.Lexeme
import Almanac.Format.PatternError
import Almanac.Format.Piece
import Almanac.LetterSet

namespace Almanac

def Item.piece : Item → Except PatternFault Piece
  | literal text => .ok (.literal text)
  | field c run =>
    match Letter.ofChar? c with
    | none => .error (.unsupportedLetter c)
    | some letter =>
      if letter.maxRun < run then .error (.tooManyLetters c run) else .ok (letter.piece run)
  | reserved c => .error (.reservedCharacter c)

structure Format where
  pattern : String
  pieces : List Piece
deriving DecidableEq

namespace Format

def compile (pattern : String) : Except PatternError Format :=
  match (Item.ofPattern pattern.toList).mapM Item.piece with
  | .ok pieces => .ok ⟨pattern, pieces⟩
  | .error fault => .error ⟨pattern, fault⟩

def letters (f : Format) : LetterSet := .ofList (f.pieces.filterMap Piece.letter?)

end Format

end Almanac
