import Almanac.Proofs.Format.Unambiguous
import Mathlib.Data.List.Pairwise

namespace Almanac

open Decimal

/-- The signs in front of a number with so many digits. A plus belongs to a signed year of four
letters or more that outgrows them. -/
inductive Letter.Sign (letter : Letter) (least count : Nat) : List Char → Prop
  | absent : Sign letter least count []
  | minus : letter.isSigned → Sign letter least count ['-']
  | plus : letter.isSigned → 4 ≤ least → least < count → Sign letter least count ['+']

theorem PrefixFree.eq_of_prefix {names : List String} (hf : PrefixFree names) {a b : String}
    (ha : a ∈ names) (hb : b ∈ names) (h : a.toList <+: b.toList) : a = b := by
  have hsymm : Std.Symm fun a b : String ↦ ¬ a.toList <+: b.toList ∧ ¬ b.toList <+: a.toList :=
    ⟨fun _ _ h ↦ ⟨h.2, h.1⟩⟩
  by_contra hne
  exact (List.Pairwise.forall hf ha hb hne).1 h

namespace Piece

/-- The spellings of a piece, each with the value it gives to a field. A name that occurs twice
stands for the first of its values. -/
inductive Spells : Piece → List Char → Option (DateField × Int) → Prop
  | literal {text : List Char} : Spells (.literal text) text none
  | number {letter : Letter} {least most : Nat} {sign digits : List Char} :
      (∀ c ∈ digits, c.isDigit) → least ≤ digits.length → digits.length ≤ most →
      letter.Sign least digits.length sign → (value digits : Int) ≤ Count.greatest →
      Spells (.number letter least most) (sign ++ digits)
        (some (letter.field, if sign = ['-'] then -(value digits : Int) else value digits))
  | shortYear {letter : Letter} {digits : List Char} : (∀ c ∈ digits, c.isDigit) →
      digits.length = 2 →
      Spells (.shortYear letter) digits (some (letter.field, 2000 + value digits))
  | fraction {width : Nat} {digits : List Char} : (∀ c ∈ digits, c.isDigit) →
      digits.length = width →
      Spells (.fraction width) digits
        (some (.nanoOfSecond, (10 ^ (9 - width) * value digits : Nat)))
  | name {letter : Letter} {names : List String} {first : Int} {name : String} : name ∈ names →
      Spells (.name letter names first) name.toList (some (letter.field, first + names.idxOf name))

def isNumber : Piece → Bool
  | number .. | shortYear _ => true
  | _ => false

variable {piece : Piece} {text rest digits sign : List Char} {content : Option (DateField × Int)}
  {letter : Letter} {least most owed size position : Nat} {names : List String} {candidate : String}
  {first v : Int}

theorem splitDigits?_eq_some (h : splitDigits? least most owed text = some (digits, rest)) :
    text = digits ++ rest ∧ (∀ c ∈ digits, c.isDigit) ∧ least ≤ digits.length ∧
      digits.length = min (runLength text - owed) most := by
  unfold splitDigits? at h
  dsimp only at h
  split at h
  · cases h
  · rename_i hleast
    cases h
    have hlen : (text.take (min (runLength text - owed) most)).length =
        min (runLength text - owed) most := by
      have := runLength_le_length text
      rw [List.length_take]
      omega
    refine ⟨(List.take_append_drop ..).symm, ?_, by omega, hlen⟩
    apply isDigit_of_mem_take
    omega

theorem splitDigits?_append (hd : ∀ c ∈ digits, c.isDigit) (hl : least ≤ digits.length)
    (hm : digits.length ≤ most)
    (ho : owed ≤ runLength rest) (he : digits.length = most ∨ runLength rest = owed) :
    splitDigits? least most owed (digits ++ rest) = some (digits, rest) := by
  have hcount : min (runLength (digits ++ rest) - owed) most = digits.length := by
    rw [runLength_append hd]
    omega
  unfold splitDigits?
  simp only [hcount]
  rw [if_neg (by omega), List.take_left, List.drop_left]

theorem splitSign?_eq_some (h : splitSign? letter least owed text = some (sign, rest)) :
    text = sign ++ rest ∧ (sign = [] ∨ letter.isSigned ∧ sign = ['-'] ∨
      letter.isSigned ∧ sign = ['+'] ∧ 4 ≤ least ∧ least < runLength rest - owed) := by
  unfold splitSign? at h
  split at h
  · rename_i hsigned
    split at h
    · cases h
      exact ⟨rfl, .inr (.inl ⟨hsigned, rfl⟩)⟩
    · split at h
      · rename_i hwide
        cases h
        exact ⟨rfl, .inr (.inr ⟨hsigned, rfl, hwide⟩)⟩
      · cases h
    · cases h
      exact ⟨rfl, .inl rfl⟩
  · cases h
    exact ⟨rfl, .inl rfl⟩

theorem splitSign?_append (hs : letter.Sign least digits.length sign) (hd : ∀ c ∈ digits, c.isDigit)
    (hne : digits ≠ []) (ho : owed ≤ runLength rest) :
    splitSign? letter least owed (sign ++ (digits ++ rest)) = some (sign, digits ++ rest) := by
  unfold splitSign?
  cases hs with
  | absent =>
    split
    · obtain ⟨c, cs, rfl⟩ := List.exists_cons_of_ne_nil hne
      have hc : c.isDigit := hd c (by simp)
      have hminus : c ≠ '-' := by rintro rfl; exact absurd hc (by decide)
      have hplus : c ≠ '+' := by rintro rfl; exact absurd hc (by decide)
      simp only [List.nil_append, List.cons_append]
      split <;> simp_all
    · rfl
  | minus hsigned =>
    rw [if_pos hsigned]
    rfl
  | plus hsigned hfour hwide =>
    have hcounted : 4 ≤ least ∧ least < runLength (digits ++ rest) - owed := by
      rw [runLength_append hd]
      omega
    rw [if_pos hsigned]
    exact if_pos hcounted

theorem splitName?_eq_some {found : List Char}
    (h : splitName? names first text = some (v, found, rest)) :
    ∃ candidate ∈ names, found = candidate.toList ∧ text = found ++ rest ∧
      v = first + names.idxOf candidate := by
  induction names generalizing first with
  | nil => cases h
  | cons head names ih =>
    rw [splitName?] at h
    cases hhead : head.toList.isPrefixOf? text with
    | some tail =>
      rw [hhead] at h
      cases h
      exact ⟨head, by simp, rfl, (List.isPrefixOf?_eq_some_iff_append_eq.1 hhead).symm, by simp⟩
    | none =>
      rw [hhead] at h
      obtain ⟨candidate, hmem, rfl, rfl, rfl⟩ := ih h
      have hne : head ≠ candidate := by
        rintro rfl
        have hself : head.toList.isPrefixOf? (head.toList ++ rest) = some rest :=
          List.isPrefixOf?_eq_some_iff_append_eq.2 rfl
        rw [hself] at hhead
        cases hhead
      refine ⟨candidate, List.mem_cons_of_mem _ hmem, rfl, rfl, ?_⟩
      rw [List.idxOf_cons_ne _ hne]
      omega

theorem splitName?_append (first : Int) (hf : ∀ other ∈ names, other.toList <+: candidate.toList ∨
      candidate.toList <+: other.toList → other = candidate) (hmem : candidate ∈ names)
      (rest : List Char) :
    splitName? names first (candidate.toList ++ rest) =
      some (first + names.idxOf candidate, candidate.toList, rest) := by
  induction names generalizing first with
  | nil => cases hmem
  | cons head names ih =>
    rw [splitName?]
    by_cases hhead : head = candidate
    · subst hhead
      have hself : head.toList.isPrefixOf? (head.toList ++ rest) = some rest :=
        List.isPrefixOf?_eq_some_iff_append_eq.2 rfl
      simp [hself]
    · have hnone : head.toList.isPrefixOf? (candidate.toList ++ rest) = none := by
        rw [← Option.not_isSome_iff_eq_none, List.isSome_isPrefixOf?_eq_isPrefixOf,
          List.isPrefixOf_iff_prefix]
        intro hbegins
        exact hhead (hf head (by simp)
          (List.prefix_or_prefix_of_prefix hbegins (List.prefix_append _ rest)))
      have hmem : candidate ∈ names := (List.mem_cons.1 hmem).resolve_left (Ne.symm hhead)
      simp only [hnone]
      rw [ih (first + 1) (fun other ho ↦ hf other (List.mem_cons_of_mem _ ho)) hmem,
        List.idxOf_cons_ne _ hhead]
      congr 2
      omega

/-- What a piece reads is one of its spellings, if a signed number can outgrow the letters of its
year. -/
theorem spells_of_read
    (hp : ∀ letter least most, piece = number letter least most → letter.isSigned → least < most)
    (h : piece.read owed position text = .ok ⟨content, size, rest⟩) :
    ∃ spelled, text = spelled ++ rest ∧ piece.Spells spelled content := by
  cases piece with
  | literal expected =>
    simp only [read] at h
    split at h
    · cases h
    · rename_i hbegins
      cases h
      exact ⟨expected, (List.isPrefixOf?_eq_some_iff_append_eq.1 hbegins).symm, .literal⟩
  | number letter least most =>
    simp only [read, readNumber] at h
    split at h
    · cases h
    · rename_i sign unsigned hsign
      split at h
      · cases h
      · rename_i digits tail hdigits
        split at h
        · cases h
        · rename_i hsmall
          cases h
          obtain ⟨rfl, hcases⟩ := splitSign?_eq_some hsign
          obtain ⟨rfl, hd, hl, hlen⟩ := splitDigits?_eq_some hdigits
          refine ⟨sign ++ digits, (List.append_assoc ..).symm,
            .number hd hl (by omega) ?_ (by omega)⟩
          rcases hcases with rfl | ⟨hsigned, rfl⟩ | ⟨hsigned, rfl, hfour, hwide⟩
          · exact .absent
          · exact .minus hsigned
          · -- More digits than letters stand behind a plus, and `most` leaves room for one more.
            have hroom := hp letter least most rfl hsigned
            exact .plus hsigned hfour (by omega)
  | shortYear letter =>
    simp only [read] at h
    split at h
    · cases h
    · rename_i digits tail hdigits
      cases h
      obtain ⟨rfl, hd, hl, hlen⟩ := splitDigits?_eq_some hdigits
      exact ⟨digits, rfl, .shortYear hd (by omega)⟩
  | fraction width =>
    simp only [read] at h
    split at h
    · cases h
    · rename_i hrun
      simp only [Except.ok.injEq, Match.mk.injEq] at h
      obtain ⟨rfl, rfl, rfl⟩ := h
      have hlen : (text.take width).length = width := by
        have := runLength_le_length text
        rw [List.length_take]
        omega
      refine ⟨text.take width, (List.take_append_drop ..).symm, ?_⟩
      rw [value_rightpad_zero, hlen]
      exact .fraction (isDigit_of_mem_take (by omega)) hlen
  | name letter names first =>
    simp only [read] at h
    split at h
    · cases h
    · rename_i v found tail hname
      cases h
      obtain ⟨candidate, hmem, rfl, rfl, rfl⟩ := splitName?_eq_some hname
      exact ⟨candidate.toList, rfl, .name hmem⟩

theorem Sound.eq_of_prefix (hs : (name letter names first).Sound) {a b : String} (ha : a ∈ names)
    (hb : b ∈ names) (h : a.toList <+: b.toList) : a = b := by
  have hnarrow : ∀ names ∈ [Letter.narrowMonths, Letter.narrowDays], ∀ a ∈ names, ∀ b ∈ names,
      a.toList <+: b.toList → a = b := by decide
  rcases hs.2.2.1 with hf | rfl | rfl
  · exact PrefixFree.eq_of_prefix hf ha hb h
  · exact hnarrow _ (by simp) a ha b hb h
  · exact hnarrow _ (by simp) a ha b hb h

/-- A spelling of a piece is read back, whatever text follows, given that the digits there are at
least those owed, and just those if the piece could take more digits than it has. -/
theorem read_of_spells (hs : piece.Sound) (h : piece.Spells text content)
    (ho : piece.isNumber → owed ≤ runLength rest) (he : piece.isVariable → runLength rest = owed)
    (position : Nat) :
    ∃ size, piece.read owed position (text ++ rest) = .ok ⟨content, size, rest⟩ := by
  cases h with
  | literal =>
    have hself : text.isPrefixOf? (text ++ rest) = some rest :=
      List.isPrefixOf?_eq_some_iff_append_eq.2 rfl
    exact ⟨byteLength text, by simp only [read, hself]⟩
  | @number letter least most sign digits hd hl hm hsign hv =>
    have hne : digits ≠ [] := by
      have hpos := hs.1
      rintro rfl
      simp only [List.length_nil] at hl
      omega
    have hfull : digits.length = most ∨ runLength rest = owed := by
      by_cases hvar : least < most
      · exact .inr (he (by simpa [isVariable] using hvar))
      · exact .inl (by omega)
    have hdigits := splitDigits?_append hd hl hm (ho rfl) hfull
    have hsign := splitSign?_append hsign hd hne (ho rfl)
    refine ⟨sign.length + digits.length, ?_⟩
    simp only [read, readNumber, List.append_assoc, hsign, hdigits, if_neg (Int.not_lt.2 hv)]
  | @shortYear letter digits hd hlen =>
    have hdigits := splitDigits?_append hd hlen.ge hlen.le (ho rfl) (.inl hlen)
    exact ⟨2, by simp only [read, hdigits]⟩
  | @fraction width digits hd hlen =>
    have hrun : ¬ runLength (text ++ rest) < width := by
      rw [runLength_append hd]
      omega
    refine ⟨width, ?_⟩
    simp only [read, if_neg hrun, List.take_left' hlen, List.drop_left' hlen,
      value_rightpad_zero, hlen]
  | @name letter names first candidate hmem =>
    have hname := splitName?_append first (fun other ho h ↦ h.elim (hs.eq_of_prefix ho hmem)
      fun h ↦ (hs.eq_of_prefix hmem ho h).symm) hmem rest
    exact ⟨byteLength candidate.toList, by simp only [read, hname]⟩

end Piece

end Almanac
