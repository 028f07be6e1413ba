import Almanac.Proofs.Format.Unambiguous

namespace Almanac

def Item.run : Item → Nat
  | field _ run => run
  | _ => 0

def Item.runs : List Item → Nat
  | [] => 0
  | item :: items => item.run + runs items

theorem Item.runs_cons_le (lexeme : Lexeme) (items : List Item) :
    runs (cons lexeme items) ≤ runs items + 1 := by
  cases lexeme with
  | text c => rcases items with _ | ⟨⟨⟩, items⟩ <;> simp [cons, runs, run]
  | letter c =>
    rcases items with _ | ⟨⟨⟩, items⟩
    case cons.field letter count =>
      rw [cons]
      split <;> simp [runs, run] <;> omega
    all_goals simp [cons, runs, run] <;> omega
  | reserved c => simp [cons, runs, run]

theorem Lexeme.length_scan_le (quoted : Bool) (pattern : List Char) :
    (scan quoted pattern).length ≤ pattern.length := by
  fun_induction scan quoted pattern <;> simp only [List.length_cons, List.length_nil] <;> omega

theorem Item.runs_ofPattern_le (pattern : List Char) :
    runs (ofPattern pattern) ≤ pattern.length := by
  refine Nat.le_trans ?_ (Lexeme.length_scan_le false pattern)
  rw [ofPattern]
  induction Lexeme.scan false pattern with
  | nil => exact Nat.le_refl _
  | cons lexeme lexemes ih => exact Nat.le_trans (runs_cons_le _ _) (Nat.succ_le_succ ih)

theorem Letter.least_piece_le {letter : Letter} {run : Nat} (h : 0 < run) :
    (letter.piece run).least ≤ run := by
  cases letter <;> dsimp only [piece] <;> (try split) <;> simp only [Piece.least] <;> omega

theorem Item.least_le_run {item : Item} {piece : Piece} (hp : item.IsProper)
    (h : item.piece = .ok piece) :
    piece.least ≤ item.run := by
  cases item with
  | literal text =>
    cases h
    exact Nat.le_refl _
  | reserved c => cases h
  | field c run =>
    rw [Item.piece] at h
    split at h
    · cases h
    · split at h
      · cases h
      · cases h
        exact Letter.least_piece_le hp

theorem Piece.owed_cons_le (piece : Piece) (pieces : List Piece) :
    owed (piece :: pieces) ≤ piece.least + owed pieces := by
  rw [owed_cons]
  split
  · exact Nat.le_refl _
  · exact Nat.zero_le _

theorem Piece.owed_drop_le {items : List Item} {pieces : List Piece}
    (h : List.Forall₂ (fun item piece ↦ item.piece = .ok piece) items pieces)
    (hp : ∀ item ∈ items, item.IsProper)
    (index : Nat) : owed (pieces.drop index) ≤ Item.runs items := by
  induction h generalizing index with
  | nil =>
    rw [List.drop_nil]
    exact Nat.zero_le _
  | @cons item piece items pieces hpiece hrest ih =>
    have hleast := Item.least_le_run (hp _ List.mem_cons_self) hpiece
    have hbehind := ih fun item hi ↦ hp item (List.mem_cons_of_mem _ hi)
    rw [Item.runs]
    cases index with
    | zero =>
      have hcons := owed_cons_le piece pieces
      have hall := hbehind 0
      rw [List.drop_zero] at hall ⊢
      omega
    | succ index => exact Nat.le_trans (hbehind index) (Nat.le_add_left _ _)

theorem Format.owed_drop_le_of_compile {pattern : String} {f : Format} (h : compile pattern = .ok f)
    (index : Nat) :
    Piece.owed (f.pieces.drop index) ≤ f.pattern.length := by
  rw [compile] at h
  cases hm : (Item.ofPattern pattern.toList).mapM Item.piece with
  | error fault => rw [hm] at h; cases h
  | ok pieces =>
    rw [hm] at h
    cases h
    refine Nat.le_trans
      (Piece.owed_drop_le (forall₂_of_mapM hm) (fun _ ↦ Item.isProper_of_mem_ofPattern) index) ?_
    rw [← String.length_toList]
    exact Item.runs_ofPattern_le pattern.toList

end Almanac
