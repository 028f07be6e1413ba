import Almanac.Format

namespace Almanac

def DateField.rank (field : DateField) : Nat := field.ctorIdx

theorem DateField.rank_lt_rank {a b : DateField} (ha : a.unit.isTimeBased)
    (hb : ¬ b.unit.isTimeBased) :
    a.rank < b.rank := by
  have h : ∀ a ∈ all, a.unit.isTimeBased → a.rank < 10 := by decide
  have h' : ∀ b ∈ all, ¬ b.unit.isTimeBased → 10 ≤ b.rank := by decide
  exact Nat.lt_of_lt_of_le (h a (by cases a <;> decide) ha) (h' b (by cases b <;> decide) hb)

/-- Letters are ordered as their fields are, but that a fraction of the second comes after the
milliseconds of the day. -/
theorem Letter.field_rank_le {a b : Letter} (h : a.rank ≤ b.rank) :
    a.field.rank ≤ b.field.rank ∨ a = milliOfDay ∧ b = fractionOfSecond := by
  have hall : ∀ a ∈ all, ∀ b ∈ all, a.rank ≤ b.rank →
      a.field.rank ≤ b.field.rank ∨ a = milliOfDay ∧ b = fractionOfSecond := by decide +kernel
  exact hall a (by cases a <;> decide) b (by cases b <;> decide) h

@[simp] theorem Letter.getElem?_rank (l : Letter) : all[l.rank]? = some l := by
  cases l <;> rfl

theorem Letter.rank_inj {a b : Letter} (h : a.rank = b.rank) : a = b := by
  have hb := getElem?_rank b
  rw [← h, getElem?_rank] at hb
  exact Option.some.inj hb

namespace LetterSet

variable {s : LetterSet} {lowest l : Letter}

theorem mem_of_lowest? (h : s.lowest? = some lowest) :
    lowest ∈ s := mem_toList.1 (List.mem_of_head? h)

theorem exists_lowest? (hl : l ∈ s) : ∃ lowest, s.lowest? = some lowest := by
  have hmem := mem_toList.2 hl
  exact ⟨_, List.head?_eq_some_head (List.ne_nil_of_mem hmem)⟩

theorem rank_le_of_lowest? (h : s.lowest? = some lowest) (hl : l ∈ s) : lowest.rank ≤ l.rank := by
  have hall : Letter.all.Pairwise fun a b ↦ a.rank ≤ b.rank := by decide
  have hsorted : s.toList.Pairwise fun a b ↦ a.rank ≤ b.rank := hall.filter _
  obtain ⟨rest, hrest⟩ := List.head?_eq_some_iff.1 h
  have hmem := mem_toList.2 hl
  rw [hrest] at hsorted hmem
  rcases List.mem_cons.1 hmem with rfl | hmem
  · exact Nat.le_refl _
  · exact (List.pairwise_cons.1 hsorted).1 l hmem

theorem lowest?_eq_some_iff :
    s.lowest? = some lowest ↔ lowest ∈ s ∧ ∀ other ∈ s, lowest.rank ≤ other.rank := by
  refine ⟨fun h ↦ ⟨mem_of_lowest? h, fun other ↦ rank_le_of_lowest? h⟩, fun ⟨hmem, hleast⟩ ↦ ?_⟩
  obtain ⟨found, hfound⟩ := exists_lowest? hmem
  have hle := hleast found (mem_of_lowest? hfound)
  have hge := rank_le_of_lowest? hfound hmem
  rw [hfound, Letter.rank_inj (Nat.le_antisymm hge hle)]

end LetterSet

end Almanac
