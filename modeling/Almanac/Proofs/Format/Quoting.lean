import Almanac.Format.Write
import Almanac.Proofs.Format.Acceptance
import Almanac.Proofs.Format.Faults

namespace Almanac

variable {front text cs : List Char} {c : Char}

def doubled (text : List Char) : List Char := text.flatMap fun c ↦ if c = '\'' then [c, c] else [c]

def quoted (text : List Char) : List Char := '\'' :: (doubled text ++ ['\''])

@[simp] theorem doubled_cons_quote (text : List Char) :
    doubled ('\'' :: text) = '\'' :: '\'' :: doubled text := rfl

theorem doubled_cons_of_ne (h : c ≠ '\'') (text : List Char) :
    doubled (c :: text) = c :: doubled text := by
  rw [doubled, List.flatMap_cons, if_neg h]
  rfl

/-- Behind an opening quote a quote ends the text just if it is not doubled, so all letters stand
inside quotes. -/
theorem isText_doubled (h : ¬ OutsideQuotes front) (text : List Char) :
    IsText front (doubled text ++ ['\'']) := by
  induction text generalizing front with
  | nil => exact .cons (fun hout ↦ absurd hout h) (isText_nil _)
  | cons c text ih =>
    by_cases hc : c = '\''
    · subst hc
      refine .cons (fun hout ↦ absurd hout h) (.cons (fun _ ↦ by decide) (ih ?_))
      rwa [outsideQuotes_append_quote, outsideQuotes_append_quote, not_not]
    · rw [doubled_cons_of_ne hc]
      exact .cons (fun hout ↦ absurd hout h) (ih (by rwa [outsideQuotes_append_of_ne hc]))

@[simp] theorem isText_quoted (text : List Char) : IsText [] (quoted text) :=
  .cons (fun _ ↦ by decide) (isText_doubled (by decide) text)

@[simp] theorem outsideQuotes_doubled (front text : List Char) :
    OutsideQuotes (front ++ doubled text) ↔ OutsideQuotes front := by
  induction text generalizing front with
  | nil => simp [doubled]
  | cons c text ih =>
    by_cases hc : c = '\''
    · subst hc
      have hpair := ih (front ++ ['\''] ++ ['\''])
      rw [outsideQuotes_append_quote, outsideQuotes_append_quote, not_not] at hpair
      simpa using hpair
    · have hsame := ih (front ++ [c])
      rw [outsideQuotes_append_of_ne hc] at hsame
      simpa [doubled_cons_of_ne hc] using hsame

@[simp] theorem outsideQuotes_quoted (text : List Char) : OutsideQuotes (quoted text) := by
  rw [quoted, ← List.cons_append, outsideQuotes_append_quote]
  exact mt (outsideQuotes_doubled ['\''] text).1 (by decide)

theorem unquote_cons_of_ne (h : c ≠ '\'') (cs : List Char) :
    unquote (c :: cs) = c :: unquote cs := by
  rw [unquote, if_neg h]
  exact fun _ hquote ↦ absurd hquote h

@[simp] theorem unquote_doubled (text : List Char) : unquote (doubled text ++ ['\'']) = text := by
  induction text with
  | nil => rfl
  | cons c text ih =>
    by_cases hc : c = '\''
    · subst hc
      simp [unquote, ih]
    · rw [doubled_cons_of_ne hc, List.cons_append, unquote_cons_of_ne hc, ih]

theorem unquote_quoted (h : ∃ c ∈ text, c ≠ '\'') : unquote (quoted text) = text := by
  induction text with
  | nil => simp at h
  | cons c text ih =>
    by_cases hc : c = '\''
    · subst hc
      have hrest : ∃ c ∈ text, c ≠ '\'' := by simpa using h
      change unquote ('\'' :: '\'' :: quoted text) = _
      rw [unquote, ih hrest]
    · have hclosed := unquote_doubled (c :: text)
      rw [doubled_cons_of_ne hc, List.cons_append] at hclosed
      rw [quoted, doubled_cons_of_ne hc, List.cons_append, unquote, if_pos rfl, hclosed]
      exact fun _ _ heq ↦ hc (List.cons.inj heq).1

theorem ofPattern_quoted (h : ∃ c ∈ text, c ≠ '\'') (hb : cs.head? ≠ some '\'') :
    Item.ofPattern (quoted text ++ cs) = Item.prepend text (Item.ofPattern cs) := by
  have hstart : OutsideQuotes [] ↔ false = false := by decide
  -- The closing quote is single because the pattern behind does not begin with another.
  obtain ⟨state, hstate, hscan⟩ := Lexeme.scan_text (isText_quoted text) hstart hb
  obtain rfl := hstate.1 (outsideQuotes_quoted text)
  rw [Item.ofPattern, hscan, List.foldr_append, unquote_quoted h, Item.foldr_cons_text]
  rfl

namespace Piece

variable {pieces : List Piece} {v w : FieldValues} {position : Nat}

def prepend (text : List Char) : List Piece → List Piece
  | literal other :: pieces => literal (text ++ other) :: pieces
  | pieces => literals text ++ pieces

theorem prepend_piece (text : List Char) (letter : Letter) (run : Nat) (pieces : List Piece) :
    prepend text (letter.piece run :: pieces) = literals text ++ letter.piece run :: pieces := by
  have hletter := letter.letter?_piece run
  cases hp : letter.piece run with
  | literal other => simp [hp, letter?] at hletter
  | _ => rfl

theorem prepend_cases (text : List Char) (pieces : List Piece) :
    (∃ other rest, pieces = literal other :: rest ∧
      prepend text pieces = literal (text ++ other) :: rest) ∨
      prepend text pieces = literals text ++ pieces := by
  rcases pieces with _ | ⟨⟨⟩, pieces⟩
  case cons.literal other => exact .inl ⟨other, pieces, rfl, rfl⟩
  all_goals exact .inr rfl

theorem mapM_prepend (text : List Char) (items : List Item) :
    (Item.prepend text items).mapM Item.piece = (items.mapM Item.piece).map (prepend text) := by
  cases items with
  | nil => exact mapM_literals text []
  | cons item items =>
    cases item with
    | literal other =>
      rw [Item.prepend, List.mapM_cons, List.mapM_cons]
      cases items.mapM Item.piece <;> rfl
    | reserved c =>
      rw [Item.prepend_of_head? text (by simp), mapM_literals, mapM_reserved]
      rfl
    | field c run =>
      rw [Item.prepend_of_head? text (by simp), mapM_literals]
      cases hl : Letter.ofChar? c with
      | none =>
        rw [mapM_unsupported hl]
        rfl
      | some letter =>
        by_cases hm : letter.maxRun < run
        · rw [mapM_tooMany hl hm]
          rfl
        · rw [mapM_field hl (Nat.not_lt.1 hm)]
          cases items.mapM Item.piece with
          | error fault => rfl
          | ok pieces => exact congrArg Except.ok (prepend_piece text letter run pieces).symm

@[simp] theorem letters_prepend (text : List Char) (pieces : List Piece) :
    (prepend text pieces).filterMap letter? = pieces.filterMap letter? := by
  obtain ⟨other, rest, rfl, hjoined⟩ | hnew := prepend_cases text pieces
  · rw [hjoined]
    rfl
  · rw [hnew, List.filterMap_append, literals]
    split <;> rfl

theorem write_prepend (r : Reading) (text : List Char) (pieces : List Piece) :
    (prepend text pieces).flatMap (write r) = text ++ pieces.flatMap (write r) := by
  obtain ⟨other, rest, rfl, hjoined⟩ | hnew := prepend_cases text pieces
  · simp [hjoined, write]
  · rw [hnew, List.flatMap_append, literals]
    split
    · simp_all
    · simp [write]

theorem readAll_literal_iff : readAll [literal text] position cs v = .ok w ↔ cs = text ∧ w = v := by
  rw [readAll_cons, read]
  cases hbegins : text.isPrefixOf? cs with
  | none =>
    refine iff_of_false (fun h ↦ by cases h) ?_
    rintro ⟨rfl, -⟩
    have hself : cs.isPrefixOf? cs = some [] :=
      List.isPrefixOf?_eq_some_iff_append_eq.2 (List.append_nil cs)
    simp [hself] at hbegins
  | some rest =>
    obtain rfl := List.isPrefixOf?_eq_some_iff_append_eq.1 hbegins
    rw [List.append_right_eq_self]
    constructor
    · intro h
      cases rest with
      | nil =>
        cases h
        exact ⟨rfl, rfl⟩
      | cons c rest => cases h
    · rintro ⟨rfl, rfl⟩
      rfl

end Piece

namespace Format

/-- The pattern for a text: quoted, so that none of it is taken for a field. -/
def quote (text : String) : String := String.ofList (quoted text.toList)

theorem compile_quote_append {text : String} (h : ∃ c ∈ text.toList, c ≠ '\'') (pattern : String)
    (hp : pattern.toList.head? ≠ some '\'') :
    compile (quote text ++ pattern) = match compile pattern with
      | .ok f => .ok ⟨quote text ++ pattern, Piece.prepend text.toList f.pieces⟩
      | .error e => .error ⟨quote text ++ pattern, e.fault⟩ := by
  rw [compile, compile, quote, String.toList_append, String.toList_ofList, ofPattern_quoted h hp,
    Piece.mapM_prepend]
  cases (Item.ofPattern pattern.toList).mapM Item.piece <;> rfl

theorem compile_quote {text : String} (h : ∃ c ∈ text.toList, c ≠ '\'') :
    compile (quote text) = .ok ⟨quote text, [.literal text.toList]⟩ := by
  have hne : text.toList ≠ [] := by
    obtain ⟨c, hc, -⟩ := h
    exact List.ne_nil_of_mem hc
  have hpieces : Piece.prepend text.toList [] = [.literal text.toList] := by
    simp [Piece.prepend, Piece.literals, hne]
  have hempty : compile "" = .ok ⟨"", []⟩ := rfl
  have hcompile := compile_quote_append h "" (by simp)
  simpa only [String.append_empty, hempty, hpieces] using hcompile

/-- Quoting protects any text but one of quotes alone. The quoted text compiles to a format without
fields, which writes the text for each instant that has a local time, and reads just the text. In
front of a pattern that does not itself begin with a quote, it changes neither whether the pattern
is accepted nor its letters, and what is written, where anything is, has the text in front. -/
theorem quote_protects (text : String) (h : ∃ c ∈ text.toList, c ≠ '\'') :
    (∃ f, compile (quote text) = .ok f ∧ (∀ letter, letter ∉ f.letters) ∧
        (∀ t : ZonedTime, t.wall.InCalendar → f.writeChecked t = .ok text) ∧
        ∀ input values, f.read input = .ok values ↔ input = text ∧ values = .empty) ∧
      ∀ pattern : String, pattern.toList.head? ≠ some '\'' →
        ((∃ g, compile (quote text ++ pattern) = .ok g) ↔ ∃ f, compile pattern = .ok f) ∧
        ∀ f g, compile pattern = .ok f → compile (quote text ++ pattern) = .ok g →
          g.letters = f.letters ∧ ∀ t, g.writeChecked t = (f.writeChecked t).map (text ++ ·) := by
  constructor
  · refine ⟨_, compile_quote h, fun letter ↦ by simp [letters, Piece.letter?],
      fun t hw ↦ writeChecked_eq_ok_iff.2 ⟨hw, by simp [write, writeReading, Piece.write]⟩,
      fun input values ↦ ?_⟩
    rw [read, Piece.readAll_literal_iff, String.toList_inj]
  · intro pattern hp
    rw [compile_quote_append h pattern hp]
    cases compile pattern with
    | error e => exact ⟨by simp, fun f g hf ↦ by cases hf⟩
    | ok f =>
      refine ⟨iff_of_true ⟨_, rfl⟩ ⟨_, rfl⟩, ?_⟩
      rintro _ _ ⟨⟩ ⟨⟩
      refine ⟨congrArg LetterSet.ofList (Piece.letters_prepend _ _), fun t ↦ ?_⟩
      rw [writeChecked, writeChecked, ZonedTime.checked_map, write, writeReading,
        Piece.write_prepend, String.ofList_append, String.ofList_toList]
      rfl

theorem quote_before_hours :
    let f : Format := ⟨"HH", [.number .hourOfDay 2 2]⟩
    let g : Format :=
      ⟨"'''til'''HH", [.literal ['\'', 't', 'i', 'l', '\''], .number .hourOfDay 2 2]⟩
    quote "'til'" = "'''til'''" ∧ compile "HH" = .ok f ∧ compile (quote "'til'" ++ "HH") = .ok g ∧
      g.letters = f.letters ∧ ∀ t, g.writeChecked t = (f.writeChecked t).map ("'til'" ++ ·) := by
  intro f g
  have hf : compile "HH" = .ok f := by decide
  have hg : compile (quote "'til'" ++ "HH") = .ok g := by decide
  obtain ⟨-, hfront⟩ := quote_protects "'til'" ⟨'t', by decide, by decide⟩
  obtain ⟨-, hboth⟩ := hfront "HH" (by decide)
  exact ⟨by decide, hf, hg, hboth f g hf hg⟩

/-- Of quotes alone too many stay. -/
example : compile (quote "'") = .ok ⟨"''''", [.literal ['\'', '\'']]⟩ := by decide

end Format

end Almanac
