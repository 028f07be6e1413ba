import Almanac.Letter

namespace Almanac

structure LetterSet where
  contains : Letter → Bool

namespace LetterSet

def ofList (letters : List Letter) : LetterSet := ⟨fun l ↦ decide (l ∈ letters)⟩

instance : Membership Letter LetterSet := ⟨fun s l ↦ s.contains l = true⟩

instance (l : Letter) (s : LetterSet) : Decidable (l ∈ s) :=
  inferInstanceAs (Decidable (s.contains l = true))

def toList (s : LetterSet) : List Letter := Letter.all.filter s.contains

def size (s : LetterSet) : Nat := s.toList.length

def isEmpty (s : LetterSet) : Bool := s.toList.isEmpty

def lowest? (s : LetterSet) : Option Letter := s.toList.head?

def toChars (s : LetterSet) : List Char := s.toList.map Letter.toChar

@[simp] theorem mem_ofList {l : Letter} {letters : List Letter} :
    l ∈ ofList letters ↔ l ∈ letters :=
  decide_eq_true_iff

@[simp] theorem mem_toList {l : Letter} {s : LetterSet} : l ∈ s.toList ↔ l ∈ s := by
  have h : l ∈ Letter.all := by cases l <;> decide
  change _ ↔ s.contains l = true
  simp [toList, h]

end LetterSet

namespace Letter

/-- A letter is placed by a set if nothing need place it, or if a letter that places it is in the
set and is itself placed. Each is coarser than the one before, so the search ends at a year or an
era. -/
def isPlacedBy (l : Letter) (present : LetterSet) : Bool :=
  l.placers.isEmpty || l.placers.attach.any fun ⟨group, hg⟩ ↦
    group.attach.any fun ⟨coarser, hc⟩ ↦
      have : l.rank < coarser.rank := rank_lt_of_mem_placers hg hc
      present.contains coarser && isPlacedBy coarser present
termination_by 27 - l.rank
decreasing_by
  have : coarser.rank < 27 := by cases coarser <;> decide
  omega

theorem isPlacedBy_iff {l : Letter} {present : LetterSet} :
    l.isPlacedBy present ↔ l.placers = [] ∨
      ∃ group ∈ l.placers, ∃ coarser ∈ group, coarser ∈ present ∧ coarser.isPlacedBy present := by
  rw [isPlacedBy]
  simp [Membership.mem]

end Letter

end Almanac
