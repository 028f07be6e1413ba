import Almanac.NamePattern
import Almanac.Proofs.Format.Compile
import Almanac.Proofs.LetterSet

namespace Almanac

def Lexeme.letter? : Lexeme → Option Letter
  | letter c => Letter.ofChar? c
  | _ => none

def Item.letter? : Item → Option Letter
  | field c _ => Letter.ofChar? c
  | _ => none

theorem Letter.isAlpha_of_ofChar? {c : Char} (h : ofChar? c ≠ none) : c.isAlpha := by
  by_contra hno
  apply h
  unfold ofChar?
  split
  case h_28 => rfl
  all_goals exact absurd rfl hno

@[simp] theorem Lexeme.letter?_unquoted (c : Char) : (unquoted c).letter? = Letter.ofChar? c := by
  by_cases h : c.isAlpha
  · rw [unquoted, if_pos h]
    rfl
  · have hnone : Letter.ofChar? c = none := by
      by_contra hne
      exact h (Letter.isAlpha_of_ofChar? hne)
    rw [unquoted, if_neg h, hnone]
    split <;> rfl

theorem LetterSet.scan_eq (quoted : Bool) (cs : List Char) :
    scan quoted cs = (Lexeme.scan quoted cs).filterMap Lexeme.letter? := by
  induction quoted, cs using Lexeme.scan.induct with
  | case1 quoted => rfl
  | case2 quoted cs ih =>
    rw [scan, if_pos rfl, scan, if_pos rfl, Bool.not_not, ih, Lexeme.scan]
    rfl
  | case3 quoted cs hsingle ih =>
    rw [scan, if_pos rfl, ih, Lexeme.scan]
    exact hsingle
  | case4 c cs hdouble hquote ih =>
    rw [scan, if_neg hquote, if_pos rfl, ih, Lexeme.scan]
    · rfl
    all_goals assumption
  | case5 c cs hdouble hquote ih =>
    rw [scan, if_neg hquote, if_neg Bool.false_ne_true, ih, Lexeme.scan, List.filterMap_cons,
      Lexeme.letter?_unquoted]
    · cases Letter.ofChar? c <;> rfl
    all_goals assumption

theorem Item.mem_letters_cons {lexeme : Lexeme} {items : List Item} {letter : Letter} :
    letter ∈ (cons lexeme items).filterMap letter? ↔
      lexeme.letter? = some letter ∨ letter ∈ items.filterMap letter? := by
  rw [List.mem_filterMap, List.mem_filterMap]
  cases lexeme with
  | text c => rcases items with _ | ⟨⟨⟩, items⟩ <;> simp [cons, letter?, Lexeme.letter?]
  | reserved c => simp [cons, letter?, Lexeme.letter?]
  | letter c =>
    rcases items with _ | ⟨⟨⟩, items⟩
    case cons.field other run =>
      by_cases hc : c = other <;> simp [cons, letter?, Lexeme.letter?, hc]
    all_goals simp [cons, letter?, Lexeme.letter?]

theorem Item.mem_letters_ofPattern {pattern : List Char} {letter : Letter} :
    letter ∈ (ofPattern pattern).filterMap letter? ↔ letter ∈ LetterSet.scan false pattern := by
  rw [ofPattern, LetterSet.scan_eq]
  induction Lexeme.scan false pattern with
  | nil => rfl
  | cons lexeme lexemes ih =>
    rw [List.foldr_cons, mem_letters_cons, ih, List.mem_filterMap, List.mem_filterMap]
    simp

theorem Item.letter?_of_piece {item : Item} {piece : Piece} (h : item.piece = .ok piece) :
    piece.letter? = item.letter? := by
  cases item with
  | literal text =>
    cases h
    rfl
  | reserved c => cases h
  | field c run =>
    rw [Item.piece] at h
    rw [letter?]
    split at h
    · cases h
    · rename_i letter hletter
      split at h
      · cases h
      · cases h
        simp [hletter]

namespace Format

variable {f : Format}

theorem letters_of_mapM {items : List Item} {pieces : List Piece}
    (h : items.mapM Item.piece = .ok pieces) :
    pieces.filterMap Piece.letter? = items.filterMap Item.letter? := by
  have hall := forall₂_of_mapM h
  clear h
  induction hall with
  | nil => rfl
  | cons he _ ih => rw [List.filterMap_cons, List.filterMap_cons, Item.letter?_of_piece he, ih]

theorem letters_eq_ofPattern {pattern : String} (h : compile pattern = .ok f) :
    f.letters = LetterSet.ofPattern pattern := by
  rw [compile] at h
  cases hm : (Item.ofPattern pattern.toList).mapM Item.piece with
  | error fault => rw [hm] at h; cases h
  | ok pieces =>
    rw [hm] at h
    cases h
    rw [letters, letters_of_mapM hm, LetterSet.ofPattern, LetterSet.ofList, LetterSet.ofList]
    congr 1
    funext letter
    rw [decide_eq_decide]
    exact Item.mem_letters_ofPattern

end Format

theorem Letter.isPlacedBy_of_isChain {present : LetterSet} {l : Letter} (coarser : List Letter)
    (h : (l :: coarser).IsChain fun fine coarse ↦ coarse ∈ present ∧
      ∃ group ∈ fine.placers, coarse ∈ group)
    (hlast : ((l :: coarser).getLast (List.cons_ne_nil l coarser)).placers = []) :
    l.isPlacedBy present := by
  induction coarser generalizing l with
  | nil => exact isPlacedBy_iff.2 (.inl hlast)
  | cons coarse coarser ih =>
    obtain ⟨⟨hpresent, group, hg, hcoarse⟩, hrest⟩ := List.isChain_cons_cons.1 h
    exact isPlacedBy_iff.2 (.inr ⟨group, hg, coarse, hcoarse, hpresent, ih hrest hlast⟩)

namespace NamePattern

variable {p : NamePattern} {a b : ZonedTime}

theorem compile_eq {pattern : String} {lowest : Letter} {format : Format}
    (hl : (LetterSet.ofPattern pattern).lowest? = some lowest)
    (hp : lowest.isPlacedBy (.ofPattern pattern)) (hf : Format.compile pattern = .ok format) :
    compile pattern = .ok ⟨lowest, .ofPattern pattern, format⟩ := by
  unfold compile
  simp only [hl, hp, hf]
  rfl

theorem of_compile {pattern : String} (h : compile pattern = .ok p) :
    Format.compile pattern = .ok p.format ∧
    p.letters = p.format.letters ∧ p.letters.lowest? = some p.lowest := by
  unfold compile at h
  simp only at h
  split at h
  · cases h
  · rename_i lowest hlowest
    split at h
    · cases hf : Format.compile pattern with
      | error fault => rw [hf] at h; cases h
      | ok format =>
        rw [hf] at h
        cases h
        exact ⟨rfl, (Format.letters_eq_ofPattern hf).symm, hlowest⟩
    · cases h

theorem write_eq_iff_wall :
    p.write a = p.write b ↔ p.format.writeReading a.wall = p.format.writeReading b.wall :=
  String.ofList_inj

theorem isPlacedBy_of_compile {pattern : String} (h : compile pattern = .ok p) :
    p.lowest.isPlacedBy p.letters := by
  unfold compile at h
  simp only at h
  split at h
  · cases h
  · split at h
    · rename_i lowest _ hplaced
      cases hf : Format.compile pattern with
      | error fault => rw [hf] at h; cases h
      | ok format =>
        rw [hf] at h
        cases h
        exact hplaced
    · cases h

end NamePattern

theorem Format.mem_letters_of_piece {f : Format} {piece : Piece} {letter : Letter}
    (hp : piece ∈ f.pieces) (hl : piece.letter? = some letter) : letter ∈ f.letters :=
  LetterSet.mem_ofList.2 (List.mem_filterMap.2 ⟨piece, hp, hl⟩)

theorem Piece.write_congr {a b : Reading} {piece : Piece}
    (h : ∀ letter, piece.letter? = some letter → letter.field.value a = letter.field.value b) :
    piece.write a = piece.write b := by
  cases piece with
  | literal text => rfl
  | number letter least most => rw [write, write, h letter rfl]
  | shortYear letter => rw [write, write, h letter rfl]
  | name letter names first => rw [write, write, h letter rfl]
  | fraction width =>
    have hnano : (a.clippedNano : Int) = b.clippedNano := h .fractionOfSecond rfl
    rw [write, write, Int.ofNat.inj hnano]

theorem Format.writeReading_congr {f : Format} {a b : Reading}
    (h : ∀ letter ∈ f.letters, letter.field.value a = letter.field.value b) :
    f.writeReading a = f.writeReading b := by
  rw [writeReading, writeReading, List.flatMap_def, List.flatMap_def]
  refine congrArg List.flatten (List.map_congr_left fun piece hp ↦
    Piece.write_congr fun letter hl ↦ h letter ?_)
  exact mem_letters_of_piece hp hl

theorem DateField.value_congr {field : DateField} (h : ¬ field.unit.isTimeBased) {a b : Reading}
    (hd : a.date = b.date) :
    field.value a = field.value b := by
  cases field <;> first
    | exact absurd rfl h
    | rw [value, value, hd]

namespace NamePattern

theorem write_of_date_eq {pattern : String} (h : compile pattern = .ok p)
    (hu : ¬ p.unit.isTimeBased) (hd : a.wall.date = b.wall.date) : p.write a = p.write b := by
  obtain ⟨-, hletters, hlowest⟩ := of_compile h
  refine congrArg String.ofList (Format.writeReading_congr fun letter hl ↦
    DateField.value_congr (fun ht ↦ ?_) hd)
  rw [← hletters] at hl
  have hfiner := DateField.rank_lt_rank ht hu
  rcases Letter.field_rank_le (LetterSet.rank_le_of_lowest? hlowest hl) with hle | ⟨hmilli, -⟩
  · omega
  · rw [unit, hmilli] at hu
    exact hu rfl

end NamePattern

end Almanac
