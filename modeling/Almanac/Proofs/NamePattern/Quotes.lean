import Almanac.Proofs.NamePattern
import Mathlib.Algebra.Group.Nat.Even

namespace Almanac

variable {letter : Letter} {quoted : Bool} {c : Char} {cs : List Char}

theorem Letter.ofChar?_eq_some_iff : ofChar? c = some letter ↔ c = letter.toChar := by
  constructor
  · intro h
    unfold ofChar? at h
    split at h <;> cases h <;> rfl
  · rintro rfl
    cases letter <;> rfl

@[simp] theorem Letter.toChar_ne_quote (letter : Letter) : letter.toChar ≠ '\'' := by
  cases letter <;> decide

/-- The letter stands somewhere in a text behind quotes that lead outside, if the text begins inside
or outside quotes and each quote turns. -/
def Letter.Unquoted (letter : Letter) (quoted : Bool) (cs : List Char) : Prop :=
  ∃ front back, cs = front ++ letter.toChar :: back ∧ (Even (front.count '\'') ↔ quoted = false)

@[simp] theorem Letter.unquoted_cons_quote :
    letter.Unquoted quoted ('\'' :: cs) ↔ letter.Unquoted (!quoted) cs := by
  have hturn (front : List Char) :
      (Even (('\'' :: front).count '\'') ↔ quoted = false) ↔
      (Even (front.count '\'') ↔ (!quoted) = false) := by
    rw [List.count_cons_self, Nat.even_add_one]
    cases quoted <;> simp
  constructor
  · rintro ⟨front, back, heq, heven⟩
    cases front with
    | nil => exact absurd (List.cons.inj heq).1.symm letter.toChar_ne_quote
    | cons other front =>
      obtain ⟨rfl, rfl⟩ := List.cons.inj heq
      exact ⟨front, back, rfl, (hturn front).1 heven⟩
  · rintro ⟨front, back, rfl, heven⟩
    exact ⟨'\'' :: front, back, rfl, (hturn front).2 heven⟩

theorem Letter.unquoted_cons (hc : c ≠ '\'') :
    letter.Unquoted quoted (c :: cs) ↔ (quoted = false ∧ c = letter.toChar) ∨
    letter.Unquoted quoted cs := by
  constructor
  · rintro ⟨front, back, heq, heven⟩
    cases front with
    | nil => exact .inl ⟨by simpa using heven, (List.cons.inj heq).1⟩
    | cons other front =>
      obtain ⟨rfl, rfl⟩ := List.cons.inj heq
      rw [List.count_cons_of_ne hc] at heven
      exact .inr ⟨front, back, rfl, heven⟩
  · rintro (⟨rfl, rfl⟩ | ⟨front, back, rfl, heven⟩)
    · exact ⟨[], cs, rfl, by simp⟩
    · refine ⟨c :: front, back, rfl, ?_⟩
      rwa [List.count_cons_of_ne hc]

theorem LetterSet.mem_scan_iff : letter ∈ scan quoted cs ↔ letter.Unquoted quoted cs := by
  induction cs generalizing quoted with
  | nil => simp [scan, Letter.Unquoted]
  | cons c cs ih =>
    rw [scan]
    by_cases hc : c = '\''
    · subst hc
      simp [ih]
    · rw [if_neg hc, Letter.unquoted_cons hc, ← ih]
      cases quoted with
      | true => simp
      | false => simp [Letter.ofChar?_eq_some_iff]

/-- Looking for quotes alone finds the letters of the compiled format, and these are the letters
with an even number of quotes in front. -/
theorem letters_outside_quotes (pattern : String) :
    (∀ f, Format.compile pattern = .ok f → LetterSet.ofPattern pattern = f.letters ∧
      ∀ letter : Letter, letter ∈ f.letters ↔
        ∃ front back, pattern.toList = front ++ letter.toChar :: back ∧ Even (front.count '\'')) ∧
      ∀ p, NamePattern.compile pattern = .ok p → p.letters = p.format.letters := by
  constructor
  · intro f hf
    have hletters := Format.letters_eq_ofPattern hf
    refine ⟨hletters.symm, fun letter ↦ ?_⟩
    rw [hletters, LetterSet.ofPattern, LetterSet.mem_ofList, LetterSet.mem_scan_iff]
    simp [Letter.Unquoted]
  · intro p hp
    exact (NamePattern.of_compile hp).2.1

theorem letters_between_doubled_quotes :
    let f : Format :=
      ⟨"'d''M'yyyy''MM'H", [.literal ['d', '\'', 'M'], .number .yearOfEra 4 10, .literal ['\''],
        .number .monthOfYear 2 2, .literal ['H']]⟩
    Format.compile "'d''M'yyyy''MM'H" = .ok f ∧ LetterSet.ofPattern "'d''M'yyyy''MM'H" = f.letters ∧
      f.letters.toChars = ['M', 'y'] := by
  intro f
  have hf : Format.compile "'d''M'yyyy''MM'H" = .ok f := by decide
  obtain ⟨hsame, -⟩ := (letters_outside_quotes _).1 _ hf
  exact ⟨hf, hsame, by decide⟩

end Almanac
