import Almanac.MathStep
import Almanac.Proofs.Decimal
import Mathlib.Data.List.TakeWhile

namespace Almanac.MathStep

open Decimal

def unitLetters : List (Char × CalendarUnit) :=
  [('y', .years), ('M', .months), ('w', .weeks), ('d', .days), ('H', .hours), ('h', .hours),
    ('m', .minutes), ('s', .seconds)]

/-- The magnitude that digits stand for, which is one if there are none. -/
inductive Magnitude : List Char → Nat → Prop
  | unwritten : Magnitude [] 1
  | written {digits : List Char} : digits ≠ [] → (∀ c ∈ digits, c.isDigit) →
      value digits ≤ maxMagnitude → Magnitude digits (value digits)

inductive Word : List Char → MathStep → Prop
  | plus {digits : List Char} {n : Nat} {letter : Char} {unit : CalendarUnit} :
      Magnitude digits n → (letter, unit) ∈ unitLetters →
      Word ('+' :: (digits ++ [letter])) ⟨1, false, n, unit⟩
  | minus {digits : List Char} {n : Nat} {letter : Char} {unit : CalendarUnit} :
      Magnitude digits n → (letter, unit) ∈ unitLetters →
      Word ('-' :: (digits ++ [letter])) ⟨-1, false, n, unit⟩
  | floor {digits : List Char} {letter : Char} {unit : CalendarUnit} :
      Magnitude digits 1 → (letter, unit) ∈ unitLetters →
      Word ('/' :: (digits ++ [letter])) ⟨1, true, 1, unit⟩

/-- A row of words and the steps they stand for. -/
inductive Words : List Char → List MathStep → Prop
  | nil : Words [] []
  | cons {word text : List Char} {step : MathStep} {steps : List MathStep} : Word word step →
      Words text steps → Words (word ++ text) (step :: steps)

def operators : List Char := ['+', '-', '/']

/-- A text that does not begin with a word, and the first fault that reading meets: each fault is
found only where those before it are absent. -/
inductive Malformed : List Char → MathFault → Prop
  | operator {operator : Char} {text : List Char} : operator ∉ operators →
      Malformed (operator :: text) (.unsupportedOperator operator)
  | truncated {operator : Char} {digits : List Char} : operator ∈ operators →
      (∀ c ∈ digits, c.isDigit) → Malformed (operator :: digits) .truncated
  | magnitude {operator letter : Char} {digits text : List Char} : operator ∈ operators →
      (∀ c ∈ digits, c.isDigit) → ¬ letter.isDigit → maxMagnitude < value digits →
      Malformed (operator :: (digits ++ letter :: text)) (.invalidMagnitude (String.ofList digits))
  | rounding {letter : Char} {digits text : List Char} {n : Nat} : Magnitude digits n →
      ¬ letter.isDigit → n ≠ 1 → Malformed ('/' :: (digits ++ letter :: text)) .roundingMagnitude
  | unit {operator letter : Char} {digits text : List Char} {n : Nat} : operator ∈ operators →
      Magnitude digits n → ¬ letter.isDigit → (operator = '/' → n = 1) →
      (∀ unit, (letter, unit) ∉ unitLetters) →
      Malformed (operator :: (digits ++ letter :: text)) (.unsupportedUnit letter)

variable {operator letter : Char} {digits text word rest : List Char} {n : Nat}
  {unit : CalendarUnit} {step : MathStep} {steps : List MathStep} {fault : MathFault}

theorem ofMathLetter?_eq_some_iff :
    CalendarUnit.ofMathLetter? letter = some unit ↔ (letter, unit) ∈ unitLetters := by
  constructor
  · intro h
    unfold CalendarUnit.ofMathLetter? at h
    split at h <;> simp_all [unitLetters]
  · intro h
    have hall : ∀ entry ∈ unitLetters, CalendarUnit.ofMathLetter? entry.1 = some entry.2 := by
      decide
    exact hall _ h

theorem not_isDigit_of_mem_unitLetters (h : (letter, unit) ∈ unitLetters) : ¬ letter.isDigit := by
  have hall : ∀ entry ∈ unitLetters, ¬ entry.1.isDigit := by decide
  exact hall _ h

theorem operator?_eq_none (h : operator ∉ operators) : operator? operator = none := by
  unfold operator?
  split <;> simp_all [operators]

theorem exists_operator? (h : operator ∈ operators) :
    ∃ sign round, operator? operator = some (sign, round) ∧ (round = true ↔ operator = '/') := by
  simp only [operators, List.mem_cons, List.not_mem_nil, or_false] at h
  rcases h with rfl | rfl | rfl <;> exact ⟨_, _, rfl, by decide⟩

theorem Magnitude.isDigit (h : Magnitude digits n) : ∀ c ∈ digits, c.isDigit := by
  cases h with
  | unwritten => simp
  | written _ hd _ => exact hd

theorem lt_or_magnitude (hd : ∀ c ∈ digits, c.isDigit) :
    maxMagnitude < value digits ∨ ∃ n, Magnitude digits n := by
  rcases Nat.lt_or_ge maxMagnitude (value digits) with hlt | hle
  · exact .inl hlt
  · by_cases hne : digits = []
    · subst hne
      exact .inr ⟨1, .unwritten⟩
    · exact .inr ⟨_, .written hne hd hle⟩

theorem digits_or_letter (text : List Char) :
    (∀ c ∈ text, c.isDigit) ∨
    ∃ digits letter rest, text = digits ++ letter :: rest ∧ (∀ c ∈ digits, c.isDigit) ∧
    ¬ letter.isDigit := by
  have hsplit : text.takeWhile Char.isDigit ++ text.dropWhile Char.isDigit = text :=
    List.takeWhile_append_dropWhile
  have hd : ∀ c ∈ text.takeWhile Char.isDigit, c.isDigit := fun c hc ↦ List.mem_takeWhile_imp hc
  cases hdrop : text.dropWhile Char.isDigit with
  | nil =>
    rw [hdrop, List.append_nil] at hsplit
    exact .inl (hsplit ▸ hd)
  | cons letter rest =>
    rw [hdrop] at hsplit
    have hl := List.head_dropWhile_not Char.isDigit (l := text) (by simp [hdrop])
    simp only [hdrop, List.head_cons] at hl
    exact .inr ⟨_, letter, rest, hsplit.symm, hd, by simp [hl]⟩

theorem ofParts_of_magnitude (h : Magnitude digits n) (sign : Int) (round : Bool) (letter : Char) :
    ofParts sign round digits letter =
      if round ∧ n ≠ 1 then .error .roundingMagnitude
      else match CalendarUnit.ofMathLetter? letter with
        | none => .error (.unsupportedUnit letter)
        | some unit => .ok ⟨sign, round, n, unit⟩ := by
  unfold ofParts
  cases h with
  | unwritten => rfl
  | written hne _ hle =>
    have hempty : digits.isEmpty = false := by simpa using hne
    simp only [hempty, Bool.false_eq_true, if_false]
    exact if_neg (Nat.not_lt.2 hle)

theorem ofParts_of_lt (h : maxMagnitude < value digits) (sign : Int) (round : Bool)
    (letter : Char) :
    ofParts sign round digits letter = .error (.invalidMagnitude (String.ofList digits)) := by
  have hempty : digits.isEmpty = false := by
    cases digits with
    | nil => exact absurd h (by decide)
    | cons c cs => rfl
  unfold ofParts
  simp only [hempty, Bool.false_eq_true, if_false, if_pos h]

theorem read_of_digits (ho : operator ∈ operators) (hd : ∀ c ∈ digits, c.isDigit) :
    read operator digits = .error .truncated := by
  obtain ⟨sign, round, ho, -⟩ := exists_operator? ho
  have hdrop : digits.dropWhile Char.isDigit = [] := List.dropWhile_eq_nil_iff.2 hd
  simp only [read, ho, hdrop]

theorem read_of_letter {sign : Int} {round : Bool} (ho : operator? operator = some (sign, round))
    (hd : ∀ c ∈ digits, c.isDigit) (hl : ¬ letter.isDigit) (rest : List Char) :
    read operator (digits ++ letter :: rest) =
    (ofParts sign round digits letter).map (·, rest) := by
  have hl : letter.isDigit = false := by simpa using hl
  have htake : (digits ++ letter :: rest).takeWhile Char.isDigit = digits := by
    simp [List.takeWhile_append_of_pos hd, hl]
  have hdrop : (digits ++ letter :: rest).dropWhile Char.isDigit = letter :: rest := by
    simp [List.dropWhile_append_of_pos hd, hl]
  simp only [read, ho, hdrop, htake]
  cases ofParts sign round digits letter <;> rfl

/-- A step is read to the end of its word, whatever text follows. -/
theorem read_word (h : Word word step) (rest : List Char) :
    ∃ operator body, word = operator :: body ∧ read operator (body ++ rest) = .ok (step, rest) := by
  cases h with
  | plus hm hu | minus hm hu | floor hm hu =>
    refine ⟨_, _, rfl, ?_⟩
    rw [List.append_assoc, List.singleton_append,
      read_of_letter rfl hm.isDigit (not_isDigit_of_mem_unitLetters hu), ofParts_of_magnitude hm,
      ofMathLetter?_eq_some_iff.2 hu]
    rfl

theorem read_malformed (h : Malformed (operator :: text) fault) :
    read operator text = .error fault := by
  cases h with
  | operator ho => simp only [read, operator?_eq_none ho]
  | truncated ho hd => exact read_of_digits ho hd
  | magnitude ho hd hl hlt =>
    obtain ⟨sign, round, ho, -⟩ := exists_operator? ho
    rw [read_of_letter ho hd hl, ofParts_of_lt hlt]
    rfl
  | rounding hm hl hn =>
    rw [read_of_letter rfl hm.isDigit hl, ofParts_of_magnitude hm, if_pos ⟨rfl, hn⟩]
    rfl
  | @unit _ letter digits text n ho hm hl hn hu =>
    obtain ⟨sign, round, ho, hround⟩ := exists_operator? ho
    have hone : ¬ (round = true ∧ n ≠ 1) := fun h ↦ h.2 (hn (hround.1 h.1))
    have hnone : CalendarUnit.ofMathLetter? letter = none := by
      rw [Option.eq_none_iff_forall_ne_some]
      exact fun unit h ↦ hu unit (ofMathLetter?_eq_some_iff.1 h)
    rw [read_of_letter ho hm.isDigit hl, ofParts_of_magnitude hm, if_neg hone, hnone]
    rfl

theorem word_or_malformed (operator : Char) (text : List Char) :
    (∃ word rest step, operator :: text = word ++ rest ∧ Word word step) ∨
      ∃ fault, Malformed (operator :: text) fault := by
  by_cases ho : operator ∈ operators
  case neg => exact .inr ⟨_, .operator ho⟩
  rcases digits_or_letter text with hd | ⟨digits, letter, rest, rfl, hd, hl⟩
  · exact .inr ⟨_, .truncated ho hd⟩
  rcases lt_or_magnitude hd with hlt | ⟨n, hm⟩
  · exact .inr ⟨_, .magnitude ho hd hl hlt⟩
  by_cases hn : operator = '/' ∧ n ≠ 1
  · obtain ⟨rfl, hn⟩ := hn
    exact .inr ⟨_, .rounding hm hl hn⟩
  by_cases hu : ∃ unit, (letter, unit) ∈ unitLetters
  case neg => exact .inr ⟨_, .unit ho hm hl (fun h ↦ by_contra fun hne ↦ hn ⟨h, hne⟩)
    (not_exists.1 hu)⟩
  obtain ⟨unit, hu⟩ := hu
  left
  simp only [operators, List.mem_cons, List.not_mem_nil, or_false] at ho
  rcases ho with rfl | rfl | rfl
  · exact ⟨_, rest, _, by simp, .plus hm hu⟩
  · exact ⟨_, rest, _, by simp, .minus hm hu⟩
  · obtain rfl : n = 1 := by_contra fun hne ↦ hn ⟨rfl, hne⟩
    exact ⟨_, rest, _, by simp, .floor hm hu⟩

theorem readAll_word_append (h : Word word step) (rest : List Char) :
    readAll (word ++ rest) = .ok step :: readAll rest := by
  obtain ⟨operator, body, rfl, hread⟩ := read_word h rest
  rw [List.cons_append, readAll]
  split <;> simp_all

theorem readAll_malformed (h : Malformed text fault) : readAll text = [.error fault] := by
  cases text with
  | nil => cases h
  | cons operator text =>
    have hread := read_malformed h
    rw [readAll]
    split <;> simp_all

theorem readAll_words_append (h : Words text steps) (rest : List Char) :
    readAll (text ++ rest) = steps.map .ok ++ readAll rest := by
  induction h with
  | nil => rfl
  | cons hw _ ih =>
    rw [List.append_assoc, readAll_word_append hw, ih, List.map_cons, List.cons_append]

theorem Words.append {more : List Char} {steps' : List MathStep} (h : Words text steps)
    (h' : Words more steps') : Words (text ++ more) (steps ++ steps') := by
  induction h with
  | nil => exact h'
  | cons hw _ ih =>
    rw [List.append_assoc]
    exact .cons hw ih

theorem Word.length_pos (h : Word word step) : 0 < word.length := by
  cases h <;> simp

/-- Every text is a row of words, or a row of words in front of a malformed text. -/
theorem words_or_malformed (text : List Char) :
    (∃ steps, Words text steps) ∨
    ∃ front steps rest fault, text = front ++ rest ∧ Words front steps ∧ Malformed rest fault := by
  induction hlen : text.length using Nat.strong_induction_on generalizing text with
  | _ length ih =>
    cases text with
    | nil => exact .inl ⟨[], .nil⟩
    | cons operator text =>
      rcases word_or_malformed operator text with ⟨word, rest, step, heq, hw⟩ | ⟨fault, hm⟩
      · have hlt : rest.length < length := by
          have hpos := hw.length_pos
          rw [← hlen, heq, List.length_append]
          omega
        rw [heq]
        rcases ih _ hlt rest rfl with ⟨steps, hs⟩ | ⟨front, steps, tail, fault, rfl, hs, hm⟩
        · exact .inl ⟨_, .cons hw hs⟩
        · exact .inr ⟨word ++ front, _, tail, fault, (List.append_assoc ..).symm, .cons hw hs, hm⟩
      · exact .inr ⟨[], [], _, fault, rfl, .nil, hm⟩

@[simp] theorem mapM_map_ok_append (steps : List MathStep)
    (row : List (Except MathFault MathStep)) :
    (steps.map Except.ok ++ row).mapM id = (row.mapM id).map (steps ++ ·) := by
  induction steps with
  | nil =>
    rw [List.map_nil, List.nil_append]
    cases row.mapM id <;> rfl
  | cons step steps ih =>
    rw [List.map_cons, List.cons_append, List.mapM_cons, ih]
    cases row.mapM id <;> rfl

variable {suffix : String} {error : MathError}

theorem parse_words (h : Words suffix.toList steps) : parse suffix = .ok steps := by
  have hrow := readAll_words_append h []
  rw [List.append_nil, readAll] at hrow
  rw [parse, hrow, mapM_map_ok_append]
  change Except.ok (steps ++ []) = _
  rw [List.append_nil]

theorem parse_malformed {front : List Char} (hsplit : suffix.toList = front ++ rest)
    (h : Words front steps) (hm : Malformed rest fault) :
    parse suffix = .error ⟨suffix, fault⟩ := by
  have hrow := readAll_words_append h rest
  rw [readAll_malformed hm, ← hsplit] at hrow
  rw [parse, hrow, mapM_map_ok_append]
  rfl

theorem parse_eq_ok_iff : parse suffix = .ok steps ↔ Words suffix.toList steps := by
  constructor
  · intro h
    rcases words_or_malformed suffix.toList with ⟨found, hw⟩ |
      ⟨front, found, rest, fault, hsplit, hw, hm⟩
    · rw [parse_words hw] at h
      cases h
      exact hw
    · rw [parse_malformed hsplit hw hm] at h
      cases h
  · exact parse_words

theorem parse_append {more : String} {steps' : List MathStep} (h : parse suffix = .ok steps)
    (h' : parse more = .ok steps') : parse (suffix ++ more) = .ok (steps ++ steps') := by
  rw [parse_eq_ok_iff, String.toList_append]
  exact (parse_eq_ok_iff.1 h).append (parse_eq_ok_iff.1 h')

theorem parse_eq_error_iff :
    parse suffix = .error error ↔ error.suffix = suffix ∧
    ∃ front steps rest, suffix.toList = front ++ rest ∧ Words front steps ∧
    Malformed rest error.fault := by
  constructor
  · intro h
    rcases words_or_malformed suffix.toList with ⟨found, hw⟩ |
      ⟨front, found, rest, fault, hsplit, hw, hm⟩
    · rw [parse_words hw] at h
      cases h
    · rw [parse_malformed hsplit hw hm] at h
      cases h
      exact ⟨rfl, front, found, rest, hsplit, hw, hm⟩
  · rintro ⟨rfl, front, found, rest, hsplit, hw, hm⟩
    exact parse_malformed hsplit hw hm

structure Writable (step : MathStep) : Prop where
  sign : step.sign = 1 ∨ step.sign = -1
  magnitude : step.magnitude ≤ maxMagnitude
  round : step.round → step.sign = 1 ∧ step.magnitude = 1
  unit : ∃ letter, (letter, step.unit) ∈ unitLetters

def unitLetter? (unit : CalendarUnit) : Option Char :=
  (unitLetters.find? fun entry ↦ entry.2 = unit).map Prod.fst

def write (step : MathStep) : List Char :=
  if step.round then '/' :: (unitLetter? step.unit).toList
  else (if step.sign = 1 then '+' else '-') ::
    (Decimal.digits step.magnitude ++ (unitLetter? step.unit).toList)

theorem exists_unitLetter? (h : ∃ letter, (letter, unit) ∈ unitLetters) :
    ∃ letter, unitLetter? unit = some letter ∧ (letter, unit) ∈ unitLetters := by
  obtain ⟨letter, hmem⟩ := h
  have hsome : (unitLetters.find? fun entry ↦ entry.2 = unit).isSome := by
    rw [List.find?_isSome]
    exact ⟨_, hmem, by simp⟩
  obtain ⟨⟨found, other⟩, hfind⟩ := Option.isSome_iff_exists.1 hsome
  have hother : other = unit := by simpa using List.find?_some hfind
  subst hother
  exact ⟨found, by rw [unitLetter?, hfind]; rfl, List.mem_of_find?_eq_some hfind⟩

theorem magnitude_digits (h : n ≤ maxMagnitude) : Magnitude (Decimal.digits n) n := by
  have hv := value_digits n
  have hne : Decimal.digits n ≠ [] := Nat.toDigits_ne_nil
  have hm := Magnitude.written hne (fun c ↦ isDigit_of_mem_digits) (by rwa [hv])
  rwa [hv] at hm

theorem word_write (h : step.Writable) : Word step.write step := by
  obtain ⟨hsign, hmagnitude, hround, hunit⟩ := h
  obtain ⟨sign, round, magnitude, unit⟩ := step
  obtain ⟨letter, hletter, hmem⟩ := exists_unitLetter? hunit
  simp only [write, hletter, Option.toList_some]
  cases round with
  | true =>
    obtain ⟨rfl, rfl⟩ : sign = 1 ∧ magnitude = 1 := hround rfl
    exact .floor .unwritten hmem
  | false =>
    rcases hsign with rfl | rfl
    · exact .plus (magnitude_digits hmagnitude) hmem
    · exact .minus (magnitude_digits hmagnitude) hmem

theorem Magnitude.le (h : Magnitude digits n) : n ≤ maxMagnitude := by
  cases h with
  | unwritten => decide
  | written _ _ hle => exact hle

theorem Word.writable (h : Word word step) : step.Writable := by
  cases h with
  | plus hm hu => exact ⟨.inl rfl, hm.le, by simp, _, hu⟩
  | minus hm hu => exact ⟨.inr rfl, hm.le, by simp, _, hu⟩
  | floor hm hu => exact ⟨.inl rfl, hm.le, by simp, _, hu⟩

theorem Words.writable (h : Words text steps) : ∀ step ∈ steps, step.Writable := by
  induction h with
  | nil => simp
  | cons hw _ ih =>
    intro step hs
    rcases List.mem_cons.1 hs with rfl | hs
    · exact hw.writable
    · exact ih step hs

theorem words_write (h : ∀ step ∈ steps, step.Writable) : Words (steps.flatMap write) steps := by
  induction steps with
  | nil => exact .nil
  | cons step steps ih =>
    rw [List.flatMap_cons]
    exact .cons (word_write (h step (by simp))) (ih fun other ho ↦ h other (by simp [ho]))

/-- The suffixes that can be parsed are the rows of words, parsed to what the words stand for; any
other has the fault of its first malformed word. Written out, just the steps that words stand for
are parsed back. -/
theorem parse_iff_words (suffix : String) :
    (∀ steps, parse suffix = .ok steps ↔ Words suffix.toList steps) ∧
      (∀ error, parse suffix = .error error ↔ error.suffix = suffix ∧
        ∃ front steps rest, suffix.toList = front ++ rest ∧ Words front steps ∧
        Malformed rest error.fault) ∧
      ∀ steps : List MathStep, parse (String.ofList (steps.flatMap write)) = .ok steps ↔
        ∀ step ∈ steps, step.Writable := by
  refine ⟨fun steps ↦ parse_eq_ok_iff, fun error ↦ parse_eq_error_iff, fun steps ↦ ?_⟩
  rw [parse_eq_ok_iff, String.toList_ofList]
  exact ⟨Words.writable, words_write⟩

theorem parse_leading_zeros :
    parse "/0001M-h" = .ok [⟨1, true, 1, .months⟩, ⟨-1, false, 1, .hours⟩] ∧
      parse "-h/2x" = .error ⟨"-h/2x", .roundingMagnitude⟩ := by
  have hone : Magnitude ['0', '0', '0', '1'] 1 := .written (by simp) (by simp) (by decide)
  have htwo : Magnitude ['2'] 2 := .written (by simp) (by simp) (by decide)
  have hhour : Words ['-', 'h'] [⟨-1, false, 1, .hours⟩] :=
    .cons (.minus .unwritten (by decide)) .nil
  have hwords : Words "/0001M-h".toList [⟨1, true, 1, .months⟩, ⟨-1, false, 1, .hours⟩] := by
    simpa using Words.cons (.floor hone (by decide : ('M', .months) ∈ unitLetters)) hhour
  constructor
  · exact ((parse_iff_words _).1 _).2 hwords
  · apply ((parse_iff_words _).2.1 _).2
    exact ⟨rfl, ['-', 'h'], _, ['/', '2', 'x'], by simp, hhour,
      .rounding htwo (by decide) (by decide)⟩

end Almanac.MathStep
