import Almanac.FieldValues.Place
import Almanac.Proofs.Format.RoundTrip

namespace Almanac

namespace Piece

variable {r : Reading} {piece : Piece} {pieces : List Piece}

theorem content?_eq (h : ∀ width, piece = fraction width → width = 9) :
    piece.content? r = piece.field?.map fun field ↦ (field, field.value r) := by
  cases piece with
  | fraction width =>
    rw [h width rfl]
    simp [content?, field?, letter?, Letter.field, DateField.value]
  | literal text => rfl
  | number letter least most => rfl
  | shortYear letter => rfl
  | name letter names first => rfl

theorem mem_contents (h : ∀ width, fraction width ∈ pieces → width = 9) {field : DateField}
    {value : Int} :
    (field, value) ∈ pieces.filterMap (content? r) ↔
      field ∈ pieces.filterMap field? ∧ value = field.value r := by
  have heq : pieces.filterMap (content? r) = (pieces.filterMap field?).map fun field ↦
      (field, field.value r) := by
    rw [List.map_filterMap]
    exact List.filterMap_congr fun piece hp ↦ content?_eq fun width hw ↦ h width (hw ▸ hp)
  rw [heq, List.mem_map]
  constructor
  · rintro ⟨other, ho, he⟩
    obtain ⟨rfl, rfl⟩ := Prod.mk.inj he
    exact ⟨ho, rfl⟩
  · rintro ⟨hf, rfl⟩
    exact ⟨field, hf, rfl⟩

end Piece

namespace FieldValues

/-- The values of some fields at a clock reading, and no others. -/
def Shows (v : FieldValues) (fields : List DateField) (r : Reading) : Prop :=
  ∀ field, v.get? field = if field ∈ fields then some (field.value r) else none

variable {v : FieldValues} {fields : List DateField} {r : Reading} {field : DateField}

theorem Shows.get?_of_mem (hv : v.Shows fields r) (h : field ∈ fields) :
    v.get? field = some (field.value r) := by
  rw [hv, if_pos h]

theorem Shows.get?_of_not_mem (hv : v.Shows fields r) (h : field ∉ fields) :
    v.get? field = none := by
  rw [hv, if_neg h]

theorem Shows.contains_of_mem (hv : v.Shows fields r) (h : field ∈ fields) :
    v.contains field = true := by
  rw [contains, hv.get?_of_mem h]
  rfl

theorem Shows.contains_of_not_mem (hv : v.Shows fields r) (h : field ∉ fields) :
    v.contains field = false := by
  rw [contains, hv.get?_of_not_mem h]
  rfl

theorem Shows.within_of_mem (hv : v.Shows fields r) (h : field ∈ fields) {low high : Int}
    (default : Int) (hl : low ≤ field.value r) (hu : field.value r ≤ high) :
    v.within field low high default = .ok (field.value r) := by
  rw [within, hv.get?_of_mem h]
  exact if_pos ⟨hl, hu⟩

theorem Shows.within_of_not_mem (hv : v.Shows fields r) (h : field ∉ fields)
    (low high default : Int) :
    v.within field low high default = .ok default := by
  rw [within, hv.get?_of_not_mem h]

theorem Shows.agree_of_not_mem (hv : v.Shows fields r) (h : field ∉ fields) (found : Int) :
    v.agree field found = .ok () := by
  rw [FieldValues.agree, hv.get?_of_not_mem h]

theorem Shows.agree (hv : v.Shows fields r) {found : Int} (he : field.value r = found) :
    v.agree field found = .ok () := by
  by_cases h : field ∈ fields
  · rw [FieldValues.agree, hv.get?_of_mem h]
    exact if_pos he
  · exact hv.agree_of_not_mem h found

end FieldValues

theorem Format.read_shows {f : Format} {r : Reading} (hs : ∀ piece ∈ f.pieces, piece.Sound)
    (hu : f.Unambiguous) (hr : r.date.NearCalendar) (hy : ∀ letter, .shortYear letter ∉ f.pieces)
    (hw : ∀ width, .fraction width ∈ f.pieces → width = 9) :
    ∃ values, f.read (String.ofList (f.writeReading r)) = .ok values ∧
      values.Shows (f.pieces.filterMap Piece.field?) r := by
  obtain ⟨values, hread, hall⟩ := read_writeReading hs hu hr (fun letter h ↦ absurd h (hy letter))
  refine ⟨values, hread, fun field ↦ ?_⟩
  split
  · rename_i hf
    exact (hall field _).2 ((Piece.mem_contents hw).2 ⟨hf, rfl⟩)
  · rename_i hf
    cases hv : values.get? field with
    | none => rfl
    | some value => exact absurd ((Piece.mem_contents hw).1 ((hall field value).1 hv)).1 hf

theorem Format.field_mem_of_mem_letters {f : Format} {letter : Letter} (hl : letter ∈ f.letters) :
    letter.field ∈ f.pieces.filterMap Piece.field? := by
  obtain ⟨piece, hp, hletter⟩ := List.mem_filterMap.1 (LetterSet.mem_ofList.1 hl)
  refine List.mem_filterMap.2 ⟨piece, hp, ?_⟩
  rw [Piece.field?, hletter]
  rfl

/-- An unambiguous format writes no two readings alike that differ in a field. -/
theorem Format.value_eq_of_unambiguous {f : Format} {a b : Reading}
    (hs : ∀ piece ∈ f.pieces, piece.Sound) (hu : f.Unambiguous) (ha : a.date.NearCalendar)
    (hb : b.date.NearCalendar) (hy : ∀ letter, .shortYear letter ∉ f.pieces)
    (hw : ∀ width, .fraction width ∈ f.pieces → width = 9)
    (h : f.writeReading a = f.writeReading b) :
    ∀ field ∈ f.pieces.filterMap Piece.field?, field.value a = field.value b := by
  obtain ⟨values, hread, hshows⟩ := read_shows hs hu ha hy hw
  obtain ⟨values', hread', hshows'⟩ := read_shows hs hu hb hy hw
  rw [h, hread'] at hread
  obtain rfl := Except.ok.inj hread
  intro field hf
  exact Option.some.inj ((hshows.get?_of_mem hf).symm.trans (hshows'.get?_of_mem hf))

end Almanac
