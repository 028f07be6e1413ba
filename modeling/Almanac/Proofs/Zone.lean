import Almanac.Zone.Table
import Almanac.ZonedTime.Plus
import Mathlib.Data.List.Chain
import Mathlib.Tactic.Common

namespace Almanac

variable {zone : Zone} {current second wall earlier later : Int} {changes : List OffsetChange}

namespace Reading

@[simp] theorem shift_shift (r : Reading) (a b : Int) : (r.shift a).shift b = r.shift (a + b) := by
  simp only [shift, mk.injEq, and_true]
  omega

@[simp] theorem shift_zero (r : Reading) : r.shift 0 = r := by
  simp only [shift, Int.add_zero]

@[simp] theorem advance_zero (r : Reading) : r.advance 0 = r := by
  unfold advance
  split
  · rename_i h
    cases r
    simp [nanosPerSecond]
  · rename_i h
    rw [Int.add_zero, ofNanos_toNanos h]

end Reading

def WallOffsets.Shows : WallOffsets → Int → Prop
  | .gap, _ => False
  | .once offset, shown => shown = offset
  | .twice earlier later, shown => shown = earlier ∨ shown = later

theorem WallOffsets.Shows.preferred_eq {shown : Int}
    (h : (WallOffsets.twice earlier later).Shows shown) :
    (if some shown = some later then later else earlier) = shown := by
  rcases h with rfl | rfl
  · split
    · rename_i he
      exact (Option.some.inj he).symm
    · rfl
  · exact if_pos rfl

namespace Zone

theorem exists_change_of_twice (h : offsetsFrom current changes wall = .twice earlier later) :
    ∃ change ∈ changes, change.offset = later ∧ change.since + later ≤ wall ∧
    wall < change.since + earlier := by
  induction changes generalizing current with
  | nil => cases h
  | cons change rest ih =>
    rw [offsetsFrom] at h
    split at h
    · rename_i hbefore
      split at h
      · rename_i hback
        cases h
        exact ⟨change, List.mem_cons_self, rfl, hback, hbefore⟩
      · cases h
    · split at h
      · cases h
      · obtain ⟨other, hmem, hother⟩ := ih h
        exact ⟨other, List.mem_cons_of_mem _ hmem, hother⟩

theorem later_lt_earlier (h : zone.wallOffsets wall = .twice earlier later) : later < earlier := by
  obtain ⟨change, -, -, hl, hu⟩ := exists_change_of_twice h
  omega

theorem offsetFrom_bounds (hc : -86400 < current ∧ current < 86400)
    (h : ∀ change ∈ changes, -86400 < change.offset ∧ change.offset < 86400) (second : Int) :
    -86400 < offsetFrom current changes second ∧ offsetFrom current changes second < 86400 := by
  induction changes generalizing current with
  | nil => exact hc
  | cons change rest ih =>
    rw [offsetFrom]
    split
    · exact ih (h change List.mem_cons_self) (fun other hm ↦ h other (List.mem_cons_of_mem _ hm))
    · exact hc

theorem earlier_bounds (hc : -86400 < current ∧ current < 86400)
    (h : ∀ change ∈ changes, -86400 < change.offset ∧ change.offset < 86400)
    (ht : offsetsFrom current changes wall = .twice earlier later) :
    -86400 < earlier ∧ earlier < 86400 := by
  induction changes generalizing current with
  | nil => cases ht
  | cons change rest ih =>
    rw [offsetsFrom] at ht
    split at ht
    · split at ht
      · cases ht
        exact hc
      · cases ht
    · split at ht
      · cases ht
      · exact ih (h change List.mem_cons_self)
          (fun other hm ↦ h other (List.mem_cons_of_mem _ hm)) ht

theorem offsetFrom_eq_or {since : Int} (h : ∀ change ∈ changes, since + 172800 ≤ change.since)
    (second : Int) :
    offsetFrom current changes second = current ∨ since + 172800 ≤ second := by
  cases changes with
  | nil => exact .inl rfl
  | cons change rest =>
    rw [offsetFrom]
    split
    · rename_i hle
      exact .inr (Int.le_trans (h change List.mem_cons_self) hle)
    · exact .inl rfl

theorem shows_offsetFrom (hc : -86400 < current ∧ current < 86400)
    (h : ∀ change ∈ changes, -86400 < change.offset ∧ change.offset < 86400)
    (hs : changes.Pairwise fun a b ↦ a.since + 172800 ≤ b.since) (second : Int) :
    (offsetsFrom current changes (second + offsetFrom current changes second)).Shows
      (offsetFrom current changes second) := by
  induction changes generalizing current with
  | nil => exact rfl
  | cons change rest ih =>
    obtain ⟨hfirst, hrest⟩ := List.pairwise_cons.1 hs
    have hchange := h change List.mem_cons_self
    have hbounds : ∀ other ∈ rest, -86400 < other.offset ∧ other.offset < 86400 :=
      fun other hm ↦ h other (List.mem_cons_of_mem _ hm)
    rw [offsetFrom]
    by_cases hle : change.since ≤ second
    · have hoffset := offsetFrom_bounds hchange hbounds second
      rw [if_pos hle, offsetsFrom]
      by_cases hbefore : second + offsetFrom change.offset rest second < change.since + current
      · rcases @offsetFrom_eq_or change.offset rest _ hfirst second with he | hfar
        · rw [if_pos hbefore, if_pos (by omega)]
          exact .inr he
        · omega
      · have hgap : ¬ second + offsetFrom change.offset rest second <
            change.since + change.offset := by
          rcases @offsetFrom_eq_or change.offset rest _ hfirst second with he | hfar <;> omega
        rw [if_neg hbefore, if_neg hgap]
        exact ih hchange hbounds hrest
    · rw [if_neg hle, offsetsFrom, if_pos (by omega)]
      split
      · exact .inl rfl
      · exact rfl

/-- A zone as the data state them: its changes are well spaced, and all of them lie two days or more
within the calendar. -/
structure Regular (zone : Zone) : Prop where
  wellSpaced : zone.WellSpaced
  covered : ∀ change ∈ zone.changes, Reading.InCalendar ⟨change.since - 172800, 0⟩ ∧
    Reading.InCalendar ⟨change.since + 172800, 0⟩

instance : Trans (fun a b : OffsetChange ↦ a.since + 172800 ≤ b.since)
    (fun a b : OffsetChange ↦ a.since + 172800 ≤ b.since)
    (fun a b : OffsetChange ↦ a.since + 172800 ≤ b.since) where
  trans := by omega

theorem wellSpaced_iff :
    zone.WellSpaced ↔ (-86400 < zone.first ∧ zone.first < 86400) ∧
    (∀ change ∈ zone.changes, -86400 < change.offset ∧ change.offset < 86400) ∧
    zone.changes.IsChain fun a b ↦ a.since + 172800 ≤ b.since := by
  rw [WellSpaced, List.isChain_iff_pairwise]

-- Neighbouring changes are compared, since some zones have hundreds of changes.
instance (zone : Zone) : Decidable zone.Regular :=
  decidable_of_iff
    (((-86400 < zone.first ∧ zone.first < 86400) ∧
      (∀ change ∈ zone.changes, -86400 < change.offset ∧ change.offset < 86400) ∧
      zone.changes.IsChain fun a b ↦ a.since + 172800 ≤ b.since) ∧
    ∀ change ∈ zone.changes, Reading.InCalendar ⟨change.since - 172800, 0⟩ ∧
      Reading.InCalendar ⟨change.since + 172800, 0⟩)
    ⟨fun h ↦ ⟨wellSpaced_iff.2 h.1, h.2⟩, fun h ↦ ⟨wellSpaced_iff.1 h.1, h.2⟩⟩

theorem regular_of_mem_table (h : zone ∈ table) : zone.Regular := by
  revert zone
  decide +kernel

theorem utc_regular : utc.Regular := regular_of_mem_table List.mem_cons_self

theorem Regular.inCalendar_of_twice (hz : zone.Regular)
    (h : zone.wallOffsets wall = .twice earlier later) (nano : Nat) :
    Reading.InCalendar ⟨wall - earlier, nano⟩ ∧ Reading.InCalendar ⟨wall - later, nano⟩ := by
  obtain ⟨hfirst, hoffsets, -⟩ := hz.wellSpaced
  obtain ⟨change, hmem, rfl, hl, hu⟩ := exists_change_of_twice h
  have hearlier := earlier_bounds hfirst hoffsets h
  have hlater := hoffsets change hmem
  obtain ⟨⟨hs, -⟩, -, he⟩ := hz.covered change hmem
  simp only [Reading.InCalendar, Reading.date, Reading.secondsPerDay, Date.InCalendar] at hs he ⊢
  omega

@[simp] theorem covered?_eq {utc : Reading} (h : utc.InCalendar) :
    ZonedTime.covered? zone utc = some ⟨zone, utc⟩ := by
  rw [ZonedTime.covered?, Reading.covered?, if_pos h]
  rfl

/-- The preferred offset matters only to a reading that is shown twice, and only if it is the later
of the two. -/
theorem attach?_cases (zone : Zone) (wall : Reading) (preferred : Option Int) :
    zone.attach? wall preferred = zone.localize? wall ∨
    ∃ earlier later, zone.wallOffsets wall.second = .twice earlier later ∧ preferred = some later ∧
    zone.attach? wall preferred = some ⟨zone, wall.shift (-later)⟩ ∧
    zone.localize? wall = some ⟨zone, wall.shift (-earlier)⟩ := by
  unfold localize? attach?
  cases hw : zone.wallOffsets wall.second with
  | gap => exact .inl rfl
  | once offset => exact .inl rfl
  | twice earlier later =>
    by_cases hp : preferred = some later
    · by_cases hc : (wall.shift (-earlier)).InCalendar ∧ (wall.shift (-later)).InCalendar
      · refine .inr ⟨earlier, later, rfl, hp, ?_, ?_⟩
        · simp only [if_pos hc, if_pos hp]
        · simp [if_pos hc]
      · refine .inl ?_
        simp only [if_neg hc]
    · refine .inl ?_
      simp only [if_neg hp]
      simp

end Zone

namespace ZonedTime

theorem offset_bounds {t : ZonedTime} (hz : t.zone.WellSpaced) :
    -86400 < t.offset ∧ t.offset < 86400 :=
  Zone.offsetFrom_bounds hz.1 hz.2.1 t.utc.second

theorem inZone_eq {t : ZonedTime} {zone : Zone} (h : t.zone = zone) : t.inZone zone = t := by
  subst h
  rfl

@[simp] theorem shift_wall (t : ZonedTime) : t.wall.shift (-t.offset) = t.utc := by
  rw [wall, Reading.shift_shift, Int.add_right_neg, Reading.shift_zero]

theorem advance?_zero {t : ZonedTime} (ht : t.utc.InCalendar) : t.advance? 0 = some t := by
  rw [advance?, Reading.advance_zero, Zone.covered?_eq ht]

/-- The wall-clock reading of an instant leads back to it, given its offset. -/
theorem reattach?_wall {t : ZonedTime} (hz : t.zone.Regular) (ht : t.utc.InCalendar) :
    t.reattach? t.wall = some t := by
  obtain ⟨hfirst, hoffsets, hspaced⟩ := hz.wellSpaced
  have hshows : (t.zone.wallOffsets t.wall.second).Shows t.offset :=
    Zone.shows_offsetFrom hfirst hoffsets hspaced t.utc.second
  unfold reattach? Zone.attach?
  cases hw : t.zone.wallOffsets t.wall.second with
  | gap =>
    rw [hw] at hshows
    exact hshows.elim
  | once offset =>
    rw [hw] at hshows
    obtain rfl : t.offset = offset := hshows
    simp only [shift_wall, Zone.covered?_eq ht, Option.some_or]
  | twice earlier later =>
    rw [hw] at hshows
    have hcovered := hz.inCalendar_of_twice hw t.wall.nano
    have hpos : (t.wall.shift (-earlier)).InCalendar ∧ (t.wall.shift (-later)).InCalendar :=
      hcovered
    simp only [if_pos hpos, hshows.preferred_eq, shift_wall]

@[simp] theorem utc_attach? (wall : Reading) (preferred : Option Int) :
    Zone.utc.attach? wall preferred = covered? .utc wall := by
  have hwall : wall.shift (-0) = wall := Reading.shift_zero wall
  unfold Zone.attach?
  change (covered? .utc (wall.shift (-0))).or (Zone.utc.pushForward? wall) = _
  rw [hwall]
  by_cases h : wall.InCalendar
  · rw [Zone.covered?_eq h, Option.some_or]
  · have hnone : covered? .utc wall = none := by
      rw [covered?, Reading.covered?, if_neg h]
      rfl
    have hpush : Zone.utc.pushForward? wall = none := by
      refine Option.bind_eq_none_iff.2 fun dayBefore _ ↦ ?_
      change covered? .utc (wall.advance 0) = none
      simp [hnone]
    rw [hnone, hpush, Option.none_or]

end ZonedTime

end Almanac
