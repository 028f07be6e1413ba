import Almanac.Format
import Almanac.Proofs.DateField
import Mathlib.Data.List.Chain

namespace Almanac

def Item.IsProper : Item → Prop
  | literal text => text ≠ []
  | field _ run => 0 < run
  | reserved _ => True

theorem Item.isProper_of_mem_cons {lexeme : Lexeme} {items : List Item}
    (h : ∀ item ∈ items, item.IsProper) :
    ∀ item ∈ cons lexeme items, item.IsProper := by
  cases lexeme with
  | text c =>
    rcases items with _ | ⟨⟨⟩, items⟩ <;> simp_all [cons, IsProper]
  | letter c =>
    rcases items with _ | ⟨⟨⟩, items⟩
    case cons.field letter run =>
      by_cases hc : c = letter <;> simp_all [cons, IsProper]
    all_goals simp_all [cons, IsProper]
  | reserved c => simp_all [cons, IsProper]

theorem Item.isProper_of_mem_ofPattern {pattern : List Char} {item : Item}
    (h : item ∈ ofPattern pattern) :
    item.IsProper := by
  rw [ofPattern] at h
  generalize Lexeme.scan false pattern = lexemes at h
  induction lexemes generalizing item with
  | nil => cases h
  | cons lexeme lexemes ih => exact isProper_of_mem_cons (fun _ ↦ ih) item h

def PrefixFree (names : List String) : Prop :=
  names.Pairwise fun a b ↦ ¬ a.toList <+: b.toList ∧ ¬ b.toList <+: a.toList

instance (names : List String) : Decidable (PrefixFree names) :=
  inferInstanceAs
    (Decidable (names.Pairwise fun a b ↦ ¬ a.toList <+: b.toList ∧ ¬ b.toList <+: a.toList))

def beginsWithDigit (text : List Char) : Bool := text.head?.any Char.isDigit

namespace Piece

def isNarrow : Piece → Bool
  | name _ names _ => names = Letter.narrowMonths ∨ names = Letter.narrowDays
  | _ => false

/-- A piece that can write and read every value of its field, but for the values that narrow names
confuse. -/
def Sound : Piece → Prop
  | literal text => text ≠ []
  | number letter least most => 0 < least ∧ least ≤ most ∧ letter.field.width ≤ most
  | shortYear _ => True
  | fraction width => 0 < width ∧ width ≤ 9
  | name letter names first =>
    first ≤ letter.field.low ∧ letter.field.high < first + names.length ∧
      (PrefixFree names ∨ names = Letter.narrowMonths ∨ names = Letter.narrowDays) ∧
      ∀ candidate ∈ names, candidate.toList ≠ [] ∧
        (names = Letter.fullQuarters ∨ beginsWithDigit candidate.toList = false)

instance (piece : Piece) : Decidable piece.Sound := by
  unfold Sound
  split <;> infer_instance

end Piece

theorem Letter.sound_piece {letter : Letter} {run : Nat} (h₁ : 0 < run) (h₂ : run ≤ letter.maxRun) :
    (letter.piece run).Sound := by
  have hcases : run ≤ 5 → run = 1 ∨ run = 2 ∨ run = 3 ∨ run = 4 ∨ run = 5 := by omega
  cases letter <;> simp only [maxRun] at h₂
  case weekBasedYear | year | yearOfEra =>
    rw [piece]
    split
    · trivial
    · simp only [Piece.Sound, field, DateField.width]
      omega
  case nanoOfDay | milliOfDay | nanoOfSecond | fractionOfSecond | dayOfYear =>
    simp only [piece, Piece.Sound, field, DateField.width]
    omega
  all_goals
    obtain rfl | rfl | rfl | rfl | rfl := hcases (by omega) <;> decide

@[simp] theorem Letter.letter?_piece (letter : Letter) (run : Nat) :
    (letter.piece run).letter? = some letter := by
  cases letter <;> dsimp only [piece] <;> (try split) <;> rfl

namespace Format

section mapM

variable {α β ε : Type} {f : α → Except ε β} {xs : List α} {ys : List β} {y : β}

theorem forall₂_of_mapM (h : xs.mapM f = .ok ys) : List.Forall₂ (fun x y ↦ f x = .ok y) xs ys := by
  induction xs generalizing ys with
  | nil =>
    cases h
    exact .nil
  | cons x xs ih =>
    rw [List.mapM_cons] at h
    cases hx : f x with
    | error e => rw [hx] at h; cases h
    | ok z =>
      cases hxs : xs.mapM f with
      | error e => rw [hx, hxs] at h; cases h
      | ok zs =>
        rw [hx, hxs] at h
        cases h
        exact .cons hx (ih hxs)

theorem mem_of_mapM (h : xs.mapM f = .ok ys) (hy : y ∈ ys) : ∃ x ∈ xs, f x = .ok y := by
  have hall := forall₂_of_mapM h
  clear h
  induction hall with
  | nil => cases hy
  | cons hx _ ih =>
    rcases List.mem_cons.1 hy with rfl | hy
    · exact ⟨_, List.mem_cons_self, hx⟩
    · obtain ⟨x, hmem, he⟩ := ih hy
      exact ⟨x, List.mem_cons_of_mem _ hmem, he⟩

end mapM

/-- Every piece of a compiled pattern comes from literal text or from a run of a letter that is not
too long. -/
theorem mem_pieces_of_compile {pattern : String} {f : Format} (h : compile pattern = .ok f)
    {piece : Piece} (hp : piece ∈ f.pieces) :
    (∃ text, text ≠ [] ∧ piece = .literal text) ∨
      ∃ (letter : Letter) (run : Nat),
      0 < run ∧ run ≤ letter.maxRun ∧ piece = letter.piece run := by
  rw [compile] at h
  cases hm : (Item.ofPattern pattern.toList).mapM Item.piece with
  | error fault => rw [hm] at h; cases h
  | ok pieces =>
    rw [hm] at h
    cases h
    obtain ⟨item, hi, he⟩ := mem_of_mapM hm hp
    have hproper := Item.isProper_of_mem_ofPattern hi
    cases item with
    | literal text =>
      cases he
      exact .inl ⟨text, hproper, rfl⟩
    | reserved c => cases he
    | field c run =>
      rw [Item.piece] at he
      split at he
      · cases he
      · rename_i letter _
        split at he
        · cases he
        · cases he
          exact .inr ⟨letter, run, hproper, by omega, rfl⟩

theorem sound_of_compile {pattern : String} {f : Format} (h : compile pattern = .ok f)
    {piece : Piece} (hp : piece ∈ f.pieces) : piece.Sound := by
  rcases mem_pieces_of_compile h hp with ⟨text, ht, rfl⟩ | ⟨letter, run, h₁, h₂, rfl⟩
  · exact ht
  · exact Letter.sound_piece h₁ h₂

end Format

end Almanac
