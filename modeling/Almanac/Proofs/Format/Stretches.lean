import Almanac.Format.Lexeme
import Mathlib.Algebra.Group.Nat.Even
import Mathlib.Data.List.Basic
import Mathlib.Tactic.Common

namespace Almanac

/-- The place behind a front is outside quotes: each quote turns, a doubled one twice and thus not
at all. -/
def OutsideQuotes (front : List Char) : Prop := Even (front.count '\'')

instance (front : List Char) : Decidable (OutsideQuotes front) :=
  inferInstanceAs (Decidable (Even _))

/-- A longest run of one letter outside quotes, between what stands in front of it and behind. -/
structure IsRun (front : List Char) (c : Char) (run : Nat) (back : List Char) : Prop where
  isAlpha : c.isAlpha
  pos : 0 < run
  outside : OutsideQuotes front
  before : front.getLast? ≠ some c
  behind : back.head? ≠ some c

def IsText (front raw : List Char) : Prop :=
  ∀ before c behind, raw = before ++ c :: behind → OutsideQuotes (front ++ before) →
    ¬ c.isAlpha ∧ ¬ Lexeme.isReserved c

/-- A text with its quotes resolved: of two quotes together one stays, and a single one goes. -/
def unquote : List Char → List Char
  | '\'' :: '\'' :: cs => '\'' :: unquote cs
  | c :: cs => if c = '\'' then unquote cs else c :: unquote cs
  | [] => []

variable {front raw back cs : List Char} {c : Char} {run : Nat} {quoted : Bool}

theorem ne_quote_of_isAlpha (h : c.isAlpha) : c ≠ '\'' := by
  rintro rfl
  exact absurd h (by decide)

theorem ne_quote_of_isReserved (h : Lexeme.isReserved c) : c ≠ '\'' := by
  rintro rfl
  exact absurd h (by decide)

theorem not_isReserved_of_isAlpha (h : c.isAlpha) : ¬ Lexeme.isReserved c := by
  intro hreserved
  simp only [Lexeme.isReserved, List.mem_cons, List.not_mem_nil, or_false,
    decide_eq_true_eq] at hreserved
  rcases hreserved with rfl | rfl | rfl | rfl | rfl <;> exact absurd h (by decide)

theorem outsideQuotes_append_of_ne (h : c ≠ '\'') :
    OutsideQuotes (front ++ [c]) ↔ OutsideQuotes front := by
  rw [OutsideQuotes, List.count_append, List.count_singleton, if_neg (by simpa using h)]
  rfl

@[simp] theorem outsideQuotes_append_quote :
    OutsideQuotes (front ++ ['\'']) ↔ ¬ OutsideQuotes front := by
  rw [OutsideQuotes, List.count_append, List.count_singleton_self, Nat.even_add_one]
  rfl

theorem outsideQuotes_append_replicate (h : c ≠ '\'') (run : Nat) :
    OutsideQuotes (front ++ List.replicate run c) ↔ OutsideQuotes front := by
  rw [OutsideQuotes, List.count_append, List.count_replicate, if_neg (by simpa using h)]
  rfl

@[simp] theorem isText_nil (front : List Char) : IsText front [] := by simp [IsText]

theorem IsText.of_cons (h : IsText front (c :: cs)) : IsText (front ++ [c]) cs := by
  intro before d behind heq hout
  exact h (c :: before) d behind (by rw [heq]; rfl) (by simpa using hout)

theorem IsText.cons (hc : OutsideQuotes front → ¬ c.isAlpha ∧ ¬ Lexeme.isReserved c)
    (h : IsText (front ++ [c]) cs) :
    IsText front (c :: cs) := by
  intro before d behind heq hout
  cases before with
  | nil =>
    obtain ⟨rfl, rfl⟩ := List.cons.inj heq
    exact hc (by simpa using hout)
  | cons e before =>
    obtain ⟨rfl, rfl⟩ := List.cons.inj heq
    exact h before d behind rfl (by simpa using hout)

theorem exists_run (c : Char) (cs : List Char) :
    ∃ run back, 0 < run ∧ c :: cs = List.replicate run c ++ back ∧ back.head? ≠ some c := by
  induction cs with
  | nil => exact ⟨1, [], Nat.one_pos, rfl, by simp⟩
  | cons d cs ih =>
    by_cases hd : d = c
    · subst hd
      obtain ⟨run, back, -, heq, hback⟩ := ih
      exact ⟨run + 1, back, Nat.succ_pos run, by rw [heq, List.replicate_succ, List.cons_append],
        hback⟩
    · exact ⟨1, d :: cs, Nat.one_pos, rfl, by simpa using hd⟩

theorem exists_text (front cs : List Char) :
    ∃ raw back, cs = raw ++ back ∧ IsText front raw ∧
    ∀ c ∈ back.head?, OutsideQuotes (front ++ raw) ∧ (c.isAlpha ∨ Lexeme.isReserved c) := by
  induction cs generalizing front with
  | nil => exact ⟨[], [], rfl, isText_nil front, by simp⟩
  | cons c cs ih =>
    by_cases hc : OutsideQuotes front ∧ (c.isAlpha ∨ Lexeme.isReserved c)
    · exact ⟨[], c :: cs, rfl, isText_nil front, by simpa using hc⟩
    · obtain ⟨raw, back, rfl, htext, hback⟩ := ih (front ++ [c])
      exact ⟨c :: raw, back, rfl, .cons (fun hout ↦ not_or.1 fun hd ↦ hc ⟨hout, hd⟩) htext, by simpa
        using hback⟩

/-- A front that a run can follow: it leads outside quotes, and its last letter is not the first
behind it. -/
structure Boundary (front rest : List Char) : Prop where
  outside : OutsideQuotes front
  apart : ∀ c, c.isAlpha → front.getLast? = some c → rest.head? ≠ some c

theorem IsRun.boundary (h : IsRun front c run back) :
    Boundary (front ++ List.replicate run c) back := by
  refine ⟨(outsideQuotes_append_replicate (ne_quote_of_isAlpha h.isAlpha) run).2 h.outside,
    fun d _ hlast ↦ ?_⟩
  obtain ⟨run, rfl⟩ := Nat.exists_eq_succ_of_ne_zero (Nat.ne_of_gt h.pos)
  rw [List.replicate_succ', ← List.append_assoc, List.getLast?_concat] at hlast
  cases hlast
  exact h.behind

theorem IsText.boundary (h : IsText front raw) (hne : raw ≠ [])
    (hout : OutsideQuotes (front ++ raw)) (back : List Char) :
    Boundary (front ++ raw) back := by
  refine ⟨hout, fun c hc hlast ↦ ?_⟩
  obtain ⟨before, d, rfl⟩ := (List.eq_nil_or_concat' raw).resolve_left hne
  rw [← List.append_assoc, List.getLast?_concat] at hlast
  cases hlast
  rw [← List.append_assoc, outsideQuotes_append_of_ne (ne_quote_of_isAlpha hc)] at hout
  exact absurd hc (h before c [] rfl hout).1

/-- Behind a boundary stands the end, a run, a reserved character or text. -/
theorem Boundary.cases {rest : List Char} (h : Boundary front rest) :
    rest = [] ∨ (∃ c run back, rest = List.replicate run c ++ back ∧ IsRun front c run back) ∨
      (∃ c back, rest = c :: back ∧ Lexeme.isReserved c) ∨
      ∃ raw back, rest = raw ++ back ∧ raw ≠ [] ∧ IsText front raw ∧
        ∀ c ∈ back.head?, OutsideQuotes (front ++ raw) ∧ (c.isAlpha ∨ Lexeme.isReserved c) := by
  cases rest with
  | nil => exact .inl rfl
  | cons c cs =>
    by_cases halpha : c.isAlpha
    · obtain ⟨run, back, hpos, heq, hbehind⟩ := exists_run c cs
      exact .inr (.inl ⟨c, run, back, heq, halpha, hpos, h.outside,
        fun hlast ↦ h.apart c halpha hlast rfl, hbehind⟩)
    · by_cases hreserved : Lexeme.isReserved c
      · exact .inr (.inr (.inl ⟨c, cs, rfl, hreserved⟩))
      · obtain ⟨raw, back, heq, htext, hback⟩ := exists_text front (c :: cs)
        refine .inr (.inr (.inr ⟨raw, back, heq, ?_, htext, hback⟩))
        rintro rfl
        obtain rfl : c :: cs = back := heq
        exact (hback c rfl).2.elim halpha hreserved

namespace Lexeme

theorem unquoted_ne_text (h : c.isAlpha ∨ isReserved c) (d : Char) : unquoted c ≠ text d := by
  unfold unquoted
  split
  · exact Lexeme.noConfusion
  · rename_i halpha
    rw [if_pos (h.resolve_left halpha)]
    exact Lexeme.noConfusion

theorem scan_cons_of_ne (h : c ≠ '\'') (cs : List Char) :
    scan quoted (c :: cs) = (if quoted then text c else unquoted c) :: scan quoted cs := by
  cases quoted
  · rw [scan]
    · rfl
    · exact fun _ hquote _ ↦ h hquote
    · exact h
  · rw [scan]
    · rfl
    · exact fun _ hquote _ ↦ h hquote
    · exact h

theorem scan_quote (h : cs.head? ≠ some '\'') : scan quoted ('\'' :: cs) = scan (!quoted) cs := by
  rw [scan]
  rintro cs rfl
  exact h rfl

/-- A stretch of text is read as its characters with quotes resolved. What stands behind it is then
read from inside or outside quotes, as the quotes tell. -/
theorem scan_text (h : IsText front raw) (hq : OutsideQuotes front ↔ quoted = false)
    (hb : back.head? ≠ some '\'') :
    ∃ state, (OutsideQuotes (front ++ raw) ↔ state = false) ∧
      scan quoted (raw ++ back) = (unquote raw).map text ++ scan state back := by
  -- A pair of quotes turns twice and leaves the state, and a single quote turns it; front and state
  -- move on together.
  induction raw using unquote.induct generalizing front quoted with
  | case1 cs ih =>
    have htwice : OutsideQuotes (front ++ ['\''] ++ ['\'']) ↔ quoted = false := by
      rw [outsideQuotes_append_quote, outsideQuotes_append_quote, not_not, hq]
    obtain ⟨state, hstate, hscan⟩ := ih h.of_cons.of_cons htwice
    refine ⟨state, by simpa using hstate, ?_⟩
    rw [unquote, List.map_cons, List.cons_append, List.cons_append, List.cons_append, scan, hscan]
  | case2 cs hsingle ih =>
    have hturn : OutsideQuotes (front ++ ['\'']) ↔ (!quoted) = false := by
      rw [outsideQuotes_append_quote, hq]
      cases quoted <;> simp
    obtain ⟨state, hstate, hscan⟩ := ih h.of_cons hturn
    refine ⟨state, by simpa using hstate, ?_⟩
    rw [unquote, if_pos rfl, List.cons_append, scan_quote, hscan]
    · cases cs with
      | nil => exact hb
      | cons d cs => simpa using hsingle
    · exact fun cs' _ ↦ hsingle cs' rfl
  | case3 c cs hsingle hc ih =>
    have hsame : OutsideQuotes (front ++ [c]) ↔ quoted = false :=
      (outsideQuotes_append_of_ne hc).trans hq
    obtain ⟨state, hstate, hscan⟩ := ih h.of_cons hsame
    refine ⟨state, by simpa using hstate, ?_⟩
    rw [unquote, if_neg hc, List.cons_append, scan_cons_of_ne hc, hscan, List.map_cons,
      List.cons_append]
    · congr 1
      split
      · rfl
      · rename_i hout
        obtain ⟨halpha, hreserved⟩ := h [] c cs rfl (by simpa using hq.2 (by simpa using hout))
        rw [unquoted, if_neg halpha, if_neg hreserved]
    · exact fun cs' hquote ↦ absurd hquote hc
  | case4 => exact ⟨quoted, by simpa using hq, by rw [unquote]; rfl⟩

theorem scan_run (h : c.isAlpha) (run : Nat) (back : List Char) :
    scan false (List.replicate run c ++ back) =
    List.replicate run (letter c) ++ scan false back := by
  induction run with
  | zero => rfl
  | succ run ih =>
    rw [List.replicate_succ, List.cons_append, scan_cons_of_ne (ne_quote_of_isAlpha h), ih,
      List.replicate_succ, List.cons_append, if_neg Bool.false_ne_true, unquoted, if_pos h]

theorem head?_of_scan (h : (scan false cs).head? = some (letter c)) : cs.head? = some c := by
  cases cs with
  | nil => cases h
  | cons d cs =>
    by_cases hd : d = '\''
    · subst hd
      by_cases hdouble : cs.head? = some '\''
      · obtain ⟨cs, rfl⟩ := List.head?_eq_some_iff.1 hdouble
        rw [scan] at h
        cases h
      · rw [scan_quote hdouble] at h
        cases cs with
        | nil => cases h
        | cons e cs =>
          rw [scan_cons_of_ne (by simpa using hdouble)] at h
          cases h
    · rw [scan_cons_of_ne hd, if_neg Bool.false_ne_true] at h
      have hfirst : unquoted d = letter c := Option.some.inj h
      unfold unquoted at hfirst
      split at hfirst
      · cases hfirst
        rfl
      · split at hfirst <;> cases hfirst

end Lexeme

namespace Item

variable {items : List Item}

def literals (text : List Char) : List Item := if text = [] then [] else [.literal text]

def prepend (text : List Char) : List Item → List Item
  | literal other :: items => literal (text ++ other) :: items
  | items => literals text ++ items

theorem prepend_of_head? (text : List Char) (h : ∀ other, items.head? ≠ some (literal other)) :
    prepend text items = literals text ++ items := by
  rcases items with _ | ⟨⟨⟩, items⟩
  case cons.literal other => exact absurd rfl (h other)
  all_goals rfl

theorem foldr_cons_text (text : List Char) (items : List Item) :
    (text.map .text).foldr cons items = prepend text items := by
  have hcons (c : Char) (text : List Char) :
      cons (.text c) (prepend text items) = prepend (c :: text) items := by
    rcases items with _ | ⟨⟨⟩, items⟩
    case cons.literal other => rfl
    all_goals cases text <;> rfl
  induction text with
  | nil => rcases items with _ | ⟨⟨⟩, items⟩ <;> rfl
  | cons c text ih => rw [List.map_cons, List.foldr_cons, ih, hcons]

theorem foldr_cons_letter (hpos : 0 < run) (h : ∀ other, items.head? ≠ some (field c other)) :
    (List.replicate run (.letter c)).foldr cons items = field c run :: items := by
  induction run, hpos using Nat.le_induction with
  | base =>
    rcases items with _ | ⟨⟨⟩, items⟩
    case cons.field letter other =>
      have hne : c ≠ letter := by
        rintro rfl
        exact h other rfl
      exact if_neg hne
    all_goals rfl
  | succ run _ ih =>
    rw [List.replicate_succ, List.foldr_cons, ih]
    exact if_pos rfl

def lead? : Item → Option Lexeme
  | literal text => text.head?.map .text
  | field c _ => some (.letter c)
  | reserved c => some (.reserved c)

theorem lead?_cons (lexeme : Lexeme) (items : List Item) :
    (cons lexeme items).head?.bind lead? = some lexeme := by
  cases lexeme with
  | text c => rcases items with _ | ⟨⟨⟩, items⟩ <;> rfl
  | reserved c => rfl
  | letter c =>
    rcases items with _ | ⟨⟨⟩, items⟩
    case cons.field letter run =>
      rw [cons]
      split
      · rename_i hc
        rw [hc]
        rfl
      · rfl
    all_goals rfl

theorem lead?_ofPattern (cs : List Char) :
    (ofPattern cs).head?.bind lead? = (Lexeme.scan false cs).head? := by
  rw [ofPattern]
  cases Lexeme.scan false cs with
  | nil => rfl
  | cons lexeme lexemes => exact lead?_cons lexeme _

theorem ofPattern_run (h : c.isAlpha) (hpos : 0 < run) (hb : back.head? ≠ some c) :
    ofPattern (List.replicate run c ++ back) = field c run :: ofPattern back := by
  rw [ofPattern, Lexeme.scan_run h, List.foldr_append]
  refine foldr_cons_letter hpos fun other hother ↦ hb (Lexeme.head?_of_scan ?_)
  have hlead := lead?_ofPattern back
  rw [ofPattern, hother] at hlead
  exact hlead.symm

theorem ofPattern_reserved (h : Lexeme.isReserved c) (back : List Char) :
    ofPattern (c :: back) = reserved c :: ofPattern back := by
  have halpha : ¬ c.isAlpha := fun halpha ↦ not_isReserved_of_isAlpha halpha h
  rw [ofPattern, Lexeme.scan_cons_of_ne (ne_quote_of_isReserved h), if_neg Bool.false_ne_true,
    Lexeme.unquoted, if_neg halpha, if_pos h]
  rfl

/-- Text makes one item up to the next letter or reserved character outside quotes. -/
theorem ofPattern_text (h : IsText front raw) (hout : OutsideQuotes front)
    (hb : ∀ c ∈ back.head?, OutsideQuotes (front ++ raw) ∧ (c.isAlpha ∨ Lexeme.isReserved c)) :
    ofPattern (raw ++ back) = literals (unquote raw) ++ ofPattern back := by
  have hquote : back.head? ≠ some '\'' := fun hquote ↦ by
    rcases (hb '\'' hquote).2 with halpha | hreserved
    · exact ne_quote_of_isAlpha halpha rfl
    · exact ne_quote_of_isReserved hreserved rfl
  have hstart : OutsideQuotes front ↔ false = false := iff_of_true hout rfl
  obtain ⟨state, hstate, hscan⟩ := Lexeme.scan_text h hstart hquote
  have hback : Lexeme.scan state back = Lexeme.scan false back := by
    cases back with
    | nil => rw [Lexeme.scan, Lexeme.scan]
    | cons c cs => rw [hstate.1 (hb c rfl).1]
  rw [ofPattern, hscan, hback, List.foldr_append, foldr_cons_text]
  refine prepend_of_head? _ fun other hother ↦ ?_
  have hlead := lead?_ofPattern back
  rw [ofPattern, hother] at hlead
  cases back with
  | nil => rcases other with _ | ⟨d, other⟩ <;> cases hother
  | cons c cs =>
    rw [Lexeme.scan_cons_of_ne (by simpa using hquote), if_neg Bool.false_ne_true] at hlead
    obtain ⟨d, -, hd⟩ := Option.map_eq_some_iff.1 hlead
    exact Lexeme.unquoted_ne_text (hb c rfl).2 d hd.symm

end Item

end Almanac
