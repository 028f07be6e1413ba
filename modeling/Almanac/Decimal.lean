namespace Almanac.Decimal

def digits (n : Nat) : List Char := Nat.toDigits 10 n

def padded (width n : Nat) : List Char := (digits n).leftpad width '0'

def value (cs : List Char) : Nat := Nat.ofDigitChars 10 cs 0

def runLength (cs : List Char) : Nat := (cs.takeWhile Char.isDigit).length

/-- A number with a minus sign if it is negative, padded so that sign and digits fill a width. -/
def signed (width : Nat) (n : Int) : List Char :=
  if n < 0 then '-' :: padded (width - 1) n.natAbs else padded width n.natAbs

@[simp] theorem value_digits (n : Nat) :
    value (digits n) = n := Nat.ofDigitChars_toDigits (by decide) (by decide)

theorem isDigit_of_mem_digits {n : Nat} {c : Char} (h : c ∈ digits n) : c.isDigit :=
  Nat.isDigit_of_mem_toDigits (by decide) (by decide) h

@[simp] theorem value_replicate_zero_append (n : Nat) (cs : List Char) :
    value (List.replicate n '0' ++ cs) = value cs := by
  induction n with
  | zero => rfl
  | succ n ih => simpa [value, List.replicate_succ, Nat.ofDigitChars_cons] using ih

@[simp] theorem value_padded (width n : Nat) : value (padded width n) = n := by
  simp [padded]

@[simp] theorem length_padded (width n : Nat) :
    (padded width n).length = max width (digits n).length :=
  List.length_leftpad ..

end Almanac.Decimal
