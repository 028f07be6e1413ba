import Almanac.Format.Write
import Almanac.LetterSet

namespace Almanac

namespace LetterSet

def scan : (quoted : Bool) → List Char → List Letter
  | _, [] => []
  | quoted, c :: cs =>
    if c = '\'' then scan (!quoted) cs
    else if quoted then scan quoted cs
    else (Letter.ofChar? c).toList ++ scan quoted cs

def ofPattern (pattern : String) : LetterSet := .ofList (scan false pattern.toList)

end LetterSet

/-- A pattern whose finest field is placed by the others. -/
structure NamePattern where
  lowest : Letter
  letters : LetterSet
  format : Format

namespace NamePattern

/-- The name pattern of a text. A pattern without fields or with an unplaced one is refused before
any other fault. -/
def compile (pattern : String) : Except PatternError NamePattern :=
  let letters := LetterSet.ofPattern pattern
  match letters.lowest? with
  | none => .error ⟨pattern, .noFields⟩
  | some lowest =>
    if lowest.isPlacedBy letters then do
      let format ← Format.compile pattern
      return ⟨lowest, letters, format⟩
    else .error ⟨pattern, .unplaced lowest.toChar⟩

def pattern (p : NamePattern) : String := p.format.pattern

def unit (p : NamePattern) : CalendarUnit := p.lowest.unit

def write (p : NamePattern) (t : ZonedTime) : String := p.format.write t

def writeChecked (p : NamePattern) (t : ZonedTime) : Except NoLocalTime String :=
  p.format.writeChecked t

end NamePattern

end Almanac
