import Almanac.Proofs.Format.Compile
import Almanac.Proofs.Format.Stretches
import Almanac.Proofs.NamePattern.Quotes

namespace Almanac

/-- What is wrong with the run or the character that a pattern goes on with behind a front. -/
inductive FaultAt (front : List Char) : List Char → PatternFault → Prop
  | unsupported {c : Char} {run : Nat} {back : List Char} : IsRun front c run back →
      Letter.ofChar? c = none → FaultAt front (List.replicate run c ++ back) (.unsupportedLetter c)
  | tooMany {c : Char} {run : Nat} {back : List Char} {letter : Letter} : IsRun front c run back →
      Letter.ofChar? c = some letter → letter.maxRun < run →
      FaultAt front (List.replicate run c ++ back) (.tooManyLetters c run)
  | reserved {c : Char} {back : List Char} : OutsideQuotes front → Lexeme.isReserved c →
      FaultAt front (c :: back) (.reservedCharacter c)

/-- The fault is that of a place at or behind a front, and no place before it has one. -/
def FirstFault (front rest : List Char) (fault : PatternFault) : Prop :=
  ∃ before back, rest = before ++ back ∧ FaultAt (front ++ before) back fault ∧
    ∀ before' back' other, rest = before' ++ back' → FaultAt (front ++ before') back' other →
      before.length ≤ before'.length

/-- Outside quotes no reserved character stands in the pattern, and each longest run of one letter
has a meaning and is no longer than it may be. -/
structure WellFormed (pattern : List Char) : Prop where
  not_reserved : ∀ front c back, pattern = front ++ c :: back → OutsideQuotes front →
    ¬ Lexeme.isReserved c
  supported : ∀ front c run back, pattern = front ++ (List.replicate run c ++ back) →
    IsRun front c run back →
    ∃ letter, Letter.ofChar? c = some letter ∧ run ≤ letter.maxRun

def Piece.literals (text : List Char) : List Piece := if text = [] then [] else [.literal text]

/-- The pieces of what stands behind a front in a pattern: a field for each longest run of letters
outside quotes, and literals for the text in between, with its quotes resolved. -/
inductive Composed : List Char → List Char → List Piece → Prop
  | nil {front : List Char} : Composed front [] []
  | field {front back : List Char} {letter : Letter} {run : Nat} {pieces : List Piece} :
      IsRun front letter.toChar run back → run ≤ letter.maxRun →
      Composed (front ++ List.replicate run letter.toChar) back pieces →
      Composed front (List.replicate run letter.toChar ++ back) (letter.piece run :: pieces)
  | text {front raw back : List Char} {pieces : List Piece} : raw ≠ [] → IsText front raw →
      (∀ c ∈ back.head?, OutsideQuotes (front ++ raw) ∧ c.isAlpha) →
      Composed (front ++ raw) back pieces →
      Composed front (raw ++ back) (Piece.literals (unquote raw) ++ pieces)

variable {front raw back rest cs : List Char} {c : Char} {run : Nat} {fault : PatternFault}
  {letter : Letter} {pieces : List Piece} {result : Except PatternFault (List Piece)}

theorem FaultAt.head (h : FaultAt front rest fault) :
    OutsideQuotes front ∧ ∃ c cs, rest = c :: cs ∧ (c.isAlpha ∨ Lexeme.isReserved c) := by
  have hrun {c : Char} {run : Nat} {back : List Char} (hr : IsRun front c run back) :
      OutsideQuotes front ∧ ∃ d cs, List.replicate run c ++ back = d :: cs ∧
      (d.isAlpha ∨ Lexeme.isReserved d) := by
    obtain ⟨run, rfl⟩ := Nat.exists_eq_succ_of_ne_zero (Nat.ne_of_gt hr.pos)
    exact ⟨hr.outside, c, _, rfl, .inl hr.isAlpha⟩
  cases h with
  | unsupported hr => exact hrun hr
  | tooMany hr => exact hrun hr
  | reserved hout hc => exact ⟨hout, _, _, rfl, .inr hc⟩

theorem IsRun.cons_eq {d : Char} (h : IsRun front c run back)
    (heq : List.replicate run c ++ back = d :: cs) :
    c = d := by
  obtain ⟨run, rfl⟩ := Nat.exists_eq_succ_of_ne_zero (Nat.ne_of_gt h.pos)
  exact (List.cons.inj heq).1

theorem FaultAt.exists_run (h : FaultAt front (c :: cs) fault) (hc : c.isAlpha) :
    ∃ run back, c :: cs = List.replicate run c ++ back ∧ IsRun front c run back ∧
      ∀ letter, Letter.ofChar? c = some letter → letter.maxRun < run := by
  generalize hrest : c :: cs = rest at h
  cases h with
  | unsupported hr hnone =>
    obtain rfl := hr.cons_eq hrest.symm
    exact ⟨_, _, rfl, hr, fun letter hsome ↦ by simp [hnone] at hsome⟩
  | tooMany hr hletter hmany =>
    obtain rfl := hr.cons_eq hrest.symm
    refine ⟨_, _, rfl, hr, fun letter hsome ↦ ?_⟩
    obtain rfl := Option.some.inj (hletter.symm.trans hsome)
    exact hmany
  | reserved _ hreserved =>
    cases hrest
    exact absurd hreserved (not_isReserved_of_isAlpha hc)

theorem replicate_append_le {run' : Nat} {back' : List Char}
    (heq : List.replicate run c ++ back = List.replicate run' c ++ back')
    (hb : back.head? ≠ some c) : run' ≤ run := by
  induction run generalizing run' with
  | zero =>
    cases run' with
    | zero => exact Nat.le_refl 0
    | succ run' =>
      obtain rfl : back = List.replicate (run' + 1) c ++ back' := heq
      exact absurd rfl hb
  | succ run ih =>
    cases run' with
    | zero => exact Nat.zero_le _
    | succ run' => exact Nat.succ_le_succ (ih (List.cons.inj heq).2)

theorem IsRun.not_faultAt (h : IsRun front c run back) (hl : Letter.ofChar? c = some letter)
    (hm : run ≤ letter.maxRun) {before behind : List Char}
    (heq : List.replicate run c = before ++ behind) (hne : behind ≠ []) :
    ¬ FaultAt (front ++ before) (behind ++ back) fault := by
  intro hfault
  obtain ⟨hlength, -, hbehind⟩ := List.replicate_eq_append_iff.1 heq
  obtain ⟨k, hk⟩ := Nat.exists_eq_succ_of_ne_zero (mt List.length_eq_zero_iff.1 hne)
  rw [hbehind, hk, List.replicate_succ, List.cons_append] at hfault
  obtain ⟨run', back', heq', -, hmany⟩ := hfault.exists_run h.isAlpha
  have hshort : run' ≤ k + 1 := replicate_append_le heq' h.behind
  have hlong := hmany letter hl
  omega

theorem IsText.not_faultAt (h : IsText front raw) {before behind : List Char}
    (heq : raw = before ++ behind)
    (hne : behind ≠ []) : ¬ FaultAt (front ++ before) (behind ++ back) fault := by
  intro hfault
  obtain ⟨c, behind, rfl⟩ := List.exists_cons_of_ne_nil hne
  obtain ⟨hout, d, cs, hhead, hd⟩ := hfault.head
  cases hhead
  exact hd.elim (h before c behind heq hout).1 (h before c behind heq hout).2

theorem wellFormed_iff :
    WellFormed cs ↔ ∀ front rest fault, cs = front ++ rest → ¬ FaultAt front rest fault := by
  constructor
  · intro h front rest fault heq hfault
    cases hfault with
    | unsupported hr hnone =>
      obtain ⟨letter, hletter, -⟩ := h.supported _ _ _ _ heq hr
      simp [hnone] at hletter
    | tooMany hr hletter hmany =>
      obtain ⟨letter, hletter', hle⟩ := h.supported _ _ _ _ heq hr
      obtain rfl := Option.some.inj (hletter.symm.trans hletter')
      exact Nat.not_lt.2 hle hmany
    | reserved hout hreserved => exact h.not_reserved _ _ _ heq hout hreserved
  · intro h
    refine ⟨fun front c back heq hout hreserved ↦ h front _ _ heq (.reserved hout hreserved),
      fun front c run back heq hr ↦ ?_⟩
    cases hletter : Letter.ofChar? c with
    | none => exact absurd (.unsupported hr hletter) (h front _ _ heq)
    | some letter =>
      refine ⟨letter, rfl, Nat.not_lt.1 fun hmany ↦ ?_⟩
      exact h front _ _ heq (.tooMany hr hletter hmany)

/-- What a result says about the stretch behind a front: its pieces, and that it has no fault, or
its first fault. -/
def Verdict (front rest : List Char) : Except PatternFault (List Piece) → Prop
  | .ok pieces => Composed front rest pieces ∧
      ∀ before back fault, rest = before ++ back → ¬ FaultAt (front ++ before) back fault
  | .error fault => FirstFault front rest fault

/-- A stretch without a fault in front adds its pieces. -/
theorem Verdict.append {new : List Piece}
    (hclean : ∀ before behind fault, raw = before ++ behind → behind ≠ [] →
      ¬ FaultAt (front ++ before) (behind ++ back) fault)
    (hadd : ∀ pieces, result = .ok pieces → Composed (front ++ raw) back pieces →
      Composed front (raw ++ back) (new ++ pieces))
    (h : Verdict (front ++ raw) back result) :
    Verdict front (raw ++ back) (result.map (new ++ ·)) := by
  -- Any fault lies at the end of the stretch or behind it, so the first one behind it is the first
  -- of all.
  have hlater {before back' : List Char} {fault : PatternFault}
      (heq : raw ++ back = before ++ back')
      (hfault : FaultAt (front ++ before) back' fault) :
      ∃ behind, before = raw ++ behind ∧ back = behind ++ back' := by
    rcases List.append_eq_append_iff.1 heq with ⟨behind, rfl, rfl⟩ | ⟨behind, hraw, rfl⟩
    · exact ⟨behind, rfl, rfl⟩
    · by_cases hne : behind = []
      · subst hne
        exact ⟨[], by simpa using hraw.symm, rfl⟩
      · exact absurd hfault (hclean before behind fault hraw hne)
  cases result with
  | ok pieces =>
    obtain ⟨hcomposed, hnone⟩ := h
    refine ⟨hadd pieces rfl hcomposed, fun before back' fault heq hfault ↦ ?_⟩
    obtain ⟨behind, rfl, rfl⟩ := hlater heq hfault
    exact hnone behind back' fault rfl (by rwa [List.append_assoc])
  | error fault =>
    obtain ⟨before, back', rfl, hfault, hfirst⟩ := h
    refine ⟨raw ++ before, back', (List.append_assoc ..).symm, by rwa [← List.append_assoc], ?_⟩
    intro before' back'' other heq hother
    obtain ⟨behind, rfl, heq'⟩ := hlater heq hother
    have hle := hfirst behind back'' other heq' (by rwa [List.append_assoc])
    simp only [List.length_append]
    omega

theorem verdict_of_faultAt (h : FaultAt front rest fault) : Verdict front rest (.error fault) :=
  ⟨[], rest, rfl, by rwa [List.append_nil], fun _ _ _ _ _ ↦ Nat.zero_le _⟩

theorem mapM_unsupported (hl : Letter.ofChar? c = none) (run : Nat) (items : List Item) :
    (Item.field c run :: items).mapM Item.piece = .error (.unsupportedLetter c) := by
  rw [List.mapM_cons, Item.piece, hl]
  rfl

theorem mapM_tooMany (hl : Letter.ofChar? c = some letter) (hm : letter.maxRun < run)
    (items : List Item) :
    (Item.field c run :: items).mapM Item.piece = .error (.tooManyLetters c run) := by
  rw [List.mapM_cons, Item.piece, hl]
  simp only [if_pos hm]
  rfl

theorem mapM_reserved (c : Char) (items : List Item) :
    (Item.reserved c :: items).mapM Item.piece = .error (.reservedCharacter c) := by
  rw [List.mapM_cons]
  rfl

theorem mapM_field (hl : Letter.ofChar? c = some letter) (hm : run ≤ letter.maxRun)
    (items : List Item) :
    (Item.field c run :: items).mapM Item.piece =
    (items.mapM Item.piece).map ([letter.piece run] ++ ·) := by
  rw [List.mapM_cons, Item.piece, hl]
  simp only [if_neg (Nat.not_lt.2 hm)]
  cases items.mapM Item.piece <;> rfl

theorem mapM_literals (text : List Char) (items : List Item) :
    (Item.literals text ++ items).mapM Item.piece =
    (items.mapM Item.piece).map (Piece.literals text ++ ·) := by
  unfold Item.literals Piece.literals
  split
  · rw [List.nil_append]
    cases items.mapM Item.piece <;> rfl
  · rw [List.singleton_append, List.mapM_cons]
    cases items.mapM Item.piece <;> rfl

theorem verdict_nil (front : List Char) : Verdict front [] (.ok []) := by
  refine ⟨.nil, fun before back fault heq hfault ↦ ?_⟩
  obtain ⟨-, c, cs, rfl, -⟩ := hfault.head
  simp at heq

theorem IsRun.verdict (h : IsRun front c run back)
    (ih : Verdict (front ++ List.replicate run c) back ((Item.ofPattern back).mapM Item.piece)) :
    Verdict front (List.replicate run c ++ back)
      ((Item.ofPattern (List.replicate run c ++ back)).mapM Item.piece) := by
  rw [Item.ofPattern_run h.isAlpha h.pos h.behind]
  cases hl : Letter.ofChar? c with
  | none =>
    rw [mapM_unsupported hl]
    exact verdict_of_faultAt (.unsupported h hl)
  | some letter =>
    by_cases hm : letter.maxRun < run
    · rw [mapM_tooMany hl hm]
      exact verdict_of_faultAt (.tooMany h hl hm)
    · have hm : run ≤ letter.maxRun := Nat.not_lt.1 hm
      rw [mapM_field hl hm]
      refine Verdict.append (fun before behind fault ↦ h.not_faultAt hl hm)
        (fun pieces _ hcomposed ↦ ?_) ih
      obtain rfl := Letter.ofChar?_eq_some_iff.1 hl
      exact .field h hm hcomposed

theorem verdict_of_isReserved (hout : OutsideQuotes front) (h : Lexeme.isReserved c) :
    Verdict front (c :: back) ((Item.ofPattern (c :: back)).mapM Item.piece) := by
  rw [Item.ofPattern_reserved h, mapM_reserved]
  exact verdict_of_faultAt (.reserved hout h)

theorem IsText.verdict (h : IsText front raw) (hne : raw ≠ []) (hout : OutsideQuotes front)
    (hback : ∀ c ∈ back.head?, OutsideQuotes (front ++ raw) ∧ (c.isAlpha ∨ Lexeme.isReserved c))
    (ih : Verdict (front ++ raw) back ((Item.ofPattern back).mapM Item.piece)) :
    Verdict front (raw ++ back) ((Item.ofPattern (raw ++ back)).mapM Item.piece) := by
  rw [Item.ofPattern_text h hout hback, mapM_literals]
  refine Verdict.append (fun before behind fault ↦ h.not_faultAt)
    (fun pieces hpieces hcomposed ↦ ?_) ih
  refine .text hne h (fun c hc ↦ ⟨(hback c hc).1, (hback c hc).2.resolve_right fun hreserved ↦ ?_⟩)
    hcomposed
  obtain ⟨cs, rfl⟩ := List.head?_eq_some_iff.1 hc
  rw [Item.ofPattern_reserved hreserved, mapM_reserved] at hpieces
  cases hpieces

/-- Behind any boundary the compiled pieces are those of the stretches that stand there, or the
first fault is found. -/
theorem verdict_ofPattern (h : rest = [] ∨ Boundary front rest) :
    Verdict front rest ((Item.ofPattern rest).mapM Item.piece) := by
  -- On the length, since each stretch leaves a shorter rest behind the next boundary.
  induction hn : rest.length using Nat.strong_induction_on generalizing front rest with
  | _ n ih =>
    rcases h with rfl | h
    · exact verdict_nil front
    · rcases h.cases with rfl | ⟨c, run, back, rfl, hr⟩ | ⟨c, back, rfl, hreserved⟩ |
        ⟨raw, back, rfl, hne, htext, hback⟩
      · exact verdict_nil front
      · have hpos := hr.pos
        refine hr.verdict (ih back.length ?_ (.inr hr.boundary) rfl)
        rw [← hn, List.length_append, List.length_replicate]
        omega
      · exact verdict_of_isReserved h.outside hreserved
      · have hpos := List.length_pos_of_ne_nil hne
        refine htext.verdict hne h.outside hback (ih back.length ?_ ?_ rfl)
        · rw [← hn, List.length_append]
          omega
        · cases back with
          | nil => exact .inl rfl
          | cons c cs => exact .inr (htext.boundary hne (hback c rfl).1 _)

theorem Composed.letter?_ne_none (h : Composed front rest pieces)
    (hrest : ∀ c ∈ rest.head?, OutsideQuotes front ∧ c.isAlpha) :
    ∀ piece ∈ pieces.head?, piece.letter? ≠ none := by
  cases h with
  | nil => simp
  | @field _ back letter run pieces hr _ _ =>
    intro piece hpiece
    obtain rfl : letter.piece run = piece := Option.some.inj hpiece
    simp
  | @text _ raw back pieces hne htext _ _ =>
    obtain ⟨c, raw, rfl⟩ := List.exists_cons_of_ne_nil hne
    obtain ⟨hout, hc⟩ := hrest c rfl
    exact absurd hc (htext [] c raw rfl (by rwa [List.append_nil])).1

theorem Composed.isChain (h : Composed front rest pieces) :
    pieces.IsChain fun a b ↦ a.letter? ≠ none ∨ b.letter? ≠ none := by
  induction h with
  | nil => exact .nil
  | field _ _ _ ih => exact List.isChain_cons.2 ⟨fun _ _ ↦ .inl (by simp), ih⟩
  | @text front raw back pieces _ _ hback hcomposed ih =>
    unfold Piece.literals
    split
    · exact ih
    · exact List.isChain_cons.2 ⟨fun piece hpiece ↦
        .inr (hcomposed.letter?_ne_none hback piece hpiece), ih⟩

theorem verdict_of_pattern (pattern : String) :
    Verdict [] pattern.toList ((Item.ofPattern pattern.toList).mapM Item.piece) :=
  verdict_ofPattern (.inr ⟨Even.zero, fun _ _ hlast ↦ by cases hlast⟩)

namespace Format

/-- Compiling accepts the well-formed patterns and blames the leftmost fault of any other. An
accepted pattern gives one field for each longest run of a letter outside quotes, in order, and all
else as literals between them with quotes resolved. No literal is empty and no two stand side by
side. -/
theorem well_formed_or_first_fault (pattern : String) :
    ((∃ f, compile pattern = .ok f) ↔ WellFormed pattern.toList) ∧
      (∀ e, compile pattern = .error e → e.pattern = pattern ∧
        FirstFault [] pattern.toList e.fault) ∧
      ∀ f, compile pattern = .ok f → f.pattern = pattern ∧ Composed [] pattern.toList f.pieces ∧
        (∀ text, .literal text ∈ f.pieces → text ≠ []) ∧
        f.pieces.IsChain fun a b ↦ a.letter? ≠ none ∨ b.letter? ≠ none := by
  have hverdict := verdict_of_pattern pattern
  have hsound {f : Format} (h : compile pattern = .ok f) (text : List Char)
      (hmem : .literal text ∈ f.pieces) :
      Piece.Sound (.literal text) := sound_of_compile h hmem
  rw [compile] at hsound ⊢
  cases hm : (Item.ofPattern pattern.toList).mapM Item.piece with
  | ok pieces =>
    rw [hm] at hverdict hsound
    obtain ⟨hcomposed, hnone⟩ := hverdict
    refine ⟨iff_of_true ⟨_, rfl⟩ (wellFormed_iff.2 fun front rest fault heq ↦
      hnone front rest fault heq), ?_, ?_⟩
    · rintro e ⟨⟩
    · rintro f ⟨⟩
      exact ⟨rfl, hcomposed, hsound rfl, hcomposed.isChain⟩
  | error fault =>
    rw [hm] at hverdict
    obtain ⟨before, back, heq, hfault, -⟩ := id hverdict
    refine ⟨iff_of_false (by rintro ⟨f, ⟨⟩⟩) fun hwell ↦
      wellFormed_iff.1 hwell before back fault heq hfault, ?_, ?_⟩
    · rintro e ⟨⟩
      exact ⟨rfl, hverdict⟩
    · rintro f ⟨⟩

/-- The reserved character comes before the letter without a meaning. -/
example : compile "d'#'#b" = .error ⟨"d'#'#b", .reservedCharacter '#'⟩ := by decide

end Format

end Almanac
