import Almanac.Proofs.Zone

namespace Almanac

/-- The readings that a change skips, given the offset in force before it. -/
structure Gap where
  before : Int
  change : OffsetChange
deriving DecidableEq

namespace Gap

def start (gap : Gap) : Int := gap.change.since + gap.before

def stop (gap : Gap) : Int := gap.change.since + gap.change.offset

def length (gap : Gap) : Int := gap.change.offset - gap.before

end Gap

def WallOffsets.earliest? : WallOffsets → Option Int
  | .gap => none
  | .once offset => some offset
  | .twice earlier _ => some earlier

namespace Zone

variable {zone : Zone} {current earlier later offset second wall : Int}
  {changes : List OffsetChange} {gap : Gap}

def gapFrom (current : Int) : List OffsetChange → Int → Option Gap
  | [], _ => none
  | change :: later, wall =>
    if wall < change.since + current then none
    else if wall < change.since + change.offset then some ⟨current, change⟩
    else gapFrom change.offset later wall

def gap? (zone : Zone) (wall : Int) : Option Gap := gapFrom zone.first zone.changes wall

def push (zone : Zone) (wall : Int) : Int := ((zone.gap? wall).map Gap.length).getD 0

theorem gapFrom_eq_none_iff :
    gapFrom current changes wall = none ↔ offsetsFrom current changes wall ≠ .gap := by
  induction changes generalizing current with
  | nil => simp [gapFrom, offsetsFrom]
  | cons change rest ih =>
    rw [gapFrom, offsetsFrom]
    split
    · split <;> simp
    · split
      · simp
      · exact ih

theorem gapFrom_bounds (h : gapFrom current changes wall = some gap) :
    gap.change ∈ changes ∧ gap.start ≤ wall ∧ wall < gap.stop := by
  induction changes generalizing current with
  | nil => cases h
  | cons change rest ih =>
    rw [gapFrom] at h
    split at h
    · cases h
    · rename_i hstart
      split at h
      · rename_i hstop
        cases h
        exact ⟨List.mem_cons_self, Int.not_lt.1 hstart, hstop⟩
      · obtain ⟨hmem, hb⟩ := ih h
        exact ⟨List.mem_cons_of_mem _ hmem, hb⟩

theorem gapFrom_behind (hs : changes.Pairwise fun a b ↦ a.since + 172800 ≤ b.since)
    (h : gapFrom current changes wall = some gap) {later : Int} (hw : wall ≤ later)
    (hl : later < gap.change.since + 172800 + gap.change.offset) :
    gapFrom current changes later = if later < gap.stop then some gap else none := by
  induction changes generalizing current with
  | nil => cases h
  | cons change rest ih =>
    obtain ⟨hfirst, hrest⟩ := List.pairwise_cons.1 hs
    rw [gapFrom] at h ⊢
    split at h
    · cases h
    · rw [if_neg (by omega)]
      split at h
      · cases h
        change (if later < change.since + change.offset then _ else _) = if later <
          change.since + change.offset then _ else _
        congr 1
        cases rest with
        | nil => rfl
        | cons next rest =>
          have hnext := hfirst next List.mem_cons_self
          exact if_pos (by simp only at hl; omega)
      · rw [if_neg (by omega)]
        exact ih hrest h

/-- Two days before the gap and two days after it, no other change is near. -/
theorem offsetFrom_near_gap (hs : changes.Pairwise fun a b ↦ a.since + 172800 ≤ b.since)
    (h : gapFrom current changes wall = some gap) :
    (gap.change.since - 172800 ≤ second → second < gap.change.since →
      offsetFrom current changes second = gap.before) ∧
    (gap.change.since ≤ second → second < gap.change.since + 172800 →
      offsetFrom current changes second = gap.change.offset) := by
  induction changes generalizing current with
  | nil => cases h
  | cons change rest ih =>
    obtain ⟨hfirst, hrest⟩ := List.pairwise_cons.1 hs
    rw [gapFrom] at h
    rw [offsetFrom]
    split at h
    · cases h
    · split at h
      · cases h
        refine ⟨fun _ hlt ↦ if_neg (Int.not_le.2 hlt),
          fun hle (hlt : second < change.since + 172800) ↦ ?_⟩
        rw [if_pos hle]
        rcases @offsetFrom_eq_or change.offset rest _ hfirst second with he | hfar
        · exact he
        · omega
      · have hspaced := hfirst gap.change (gapFrom_bounds h).1
        refine ⟨fun hle hlt ↦ ?_, fun hle hlt ↦ ?_⟩
        · rw [if_pos (by omega)]
          exact (ih hrest h).1 hle hlt
        · rw [if_pos (by omega)]
          exact (ih hrest h).2 hle hlt

theorem offsetFrom_before_twice (hs : changes.Pairwise fun a b ↦ a.since + 172800 ≤ b.since)
    (h : offsetsFrom current changes wall = .twice earlier later) :
    ∃ change ∈ changes, change.since + later ≤ wall ∧ wall < change.since + earlier ∧
      ∀ second, change.since - 172800 ≤ second → second < change.since →
        offsetFrom current changes second = earlier := by
  induction changes generalizing current with
  | nil => cases h
  | cons change rest ih =>
    obtain ⟨hfirst, hrest⟩ := List.pairwise_cons.1 hs
    rw [offsetsFrom] at h
    split at h
    · rename_i hbefore
      split at h
      · rename_i hback
        cases h
        exact ⟨change, List.mem_cons_self, hback, hbefore,
          fun second _ hlt ↦ if_neg (Int.not_le.2 hlt)⟩
      · cases h
    · split at h
      · cases h
      · obtain ⟨other, hmem, hback, hbefore, hforce⟩ := ih hrest h
        refine ⟨other, List.mem_cons_of_mem _ hmem, hback, hbefore, fun second hle hlt ↦ ?_⟩
        have hspaced := hfirst other hmem
        rw [offsetFrom, if_pos (by omega)]
        exact hforce second hle hlt

theorem offsetFrom_of_passed {a b : Int} (ha : ∀ change ∈ changes, change.since ≤ a)
    (hb : ∀ change ∈ changes, change.since ≤ b) :
    offsetFrom current changes a = offsetFrom current changes b := by
  induction changes generalizing current with
  | nil => rfl
  | cons change rest ih =>
    rw [offsetFrom, offsetFrom, if_pos (ha change List.mem_cons_self),
      if_pos (hb change List.mem_cons_self)]
    exact ih (fun other hm ↦ ha other (List.mem_cons_of_mem _ hm))
      (fun other hm ↦ hb other (List.mem_cons_of_mem _ hm))

/-- A reading shown after an instant is shown by an instant after it. -/
theorem le_sub_of_shows (hl : ∀ change ∈ changes, second ≤ change.since)
    (hw : second + current ≤ wall)
    (h : (offsetsFrom current changes wall).Shows offset) : second ≤ wall - offset := by
  induction changes generalizing current with
  | nil =>
    obtain rfl : offset = current := h
    omega
  | cons change rest ih =>
    have hchange := hl change List.mem_cons_self
    rw [offsetsFrom] at h
    split at h
    · split at h
      · rcases h with rfl | rfl <;> omega
      · obtain rfl : offset = current := h
        omega
    · split at h
      · exact h.elim
      · exact ih (fun other hm ↦ hl other (List.mem_cons_of_mem _ hm)) (by omega) h

theorem offsetFrom_of_shows (hc : -86400 < current ∧ current < 86400)
    (hb : ∀ change ∈ changes, -86400 < change.offset ∧ change.offset < 86400)
    (hs : changes.Pairwise fun a b ↦ a.since + 172800 ≤ b.since)
    (h : (offsetsFrom current changes wall).Shows offset) :
    offsetFrom current changes (wall - offset) = offset := by
  -- Behind a change that has been passed, its offset takes the place of the current one.
  induction changes generalizing current with
  | nil =>
    obtain rfl : offset = current := h
    rfl
  | cons change rest ih =>
    obtain ⟨hfirst, hrest⟩ := List.pairwise_cons.1 hs
    have hchange := hb change List.mem_cons_self
    have hbounds : ∀ other ∈ rest, -86400 < other.offset ∧ other.offset < 86400 :=
      fun other hm ↦ hb other (List.mem_cons_of_mem _ hm)
    rw [offsetsFrom] at h
    rw [offsetFrom]
    split at h
    · split at h
      · rcases h with rfl | rfl
        · exact if_neg (by omega)
        · rw [if_pos (by omega)]
          rcases @offsetFrom_eq_or change.offset rest _ hfirst (wall - change.offset) with he | hfar
          · exact he
          · omega
      · obtain rfl : offset = current := h
        exact if_neg (by omega)
    · split at h
      · exact h.elim
      · have hle : change.since ≤ wall - offset := by
          refine le_sub_of_shows (fun other hm ↦ ?_) (by omega) h
          have := hfirst other hm
          omega
        rw [if_pos hle]
        exact ih hchange hbounds hrest h

theorem sub_le_of_passed (hw : wall ≤ second + offsetFrom current changes second)
    (h : (offsetsFrom current changes wall).earliest? = some offset) : wall - offset ≤ second := by
  induction changes generalizing current with
  | nil =>
    cases h
    rw [offsetFrom] at hw
    omega
  | cons change rest ih =>
    rw [offsetFrom] at hw
    rw [offsetsFrom] at h
    by_cases hle : change.since ≤ second
    · rw [if_pos hle] at hw
      split at h
      · split at h <;> cases h <;> omega
      · split at h
        · cases h
        · exact ih hw h
    · rw [if_neg hle] at hw
      rw [if_pos (by omega)] at h
      split at h <;> cases h <;> omega

theorem since_le_of_passed (hw : wall ≤ second + offsetFrom current changes second)
    (h : gapFrom current changes wall = some gap) : gap.change.since ≤ second := by
  induction changes generalizing current with
  | nil => cases h
  | cons change rest ih =>
    rw [offsetFrom] at hw
    rw [gapFrom] at h
    by_cases hle : change.since ≤ second
    · rw [if_pos hle] at hw
      split at h
      · cases h
      · split at h
        · cases h
          exact hle
        · exact ih hw h
    · rw [if_neg hle] at hw
      rw [if_pos (by omega)] at h
      cases h

theorem exists_shows {offsets : WallOffsets} (h : offsets ≠ .gap) :
    ∃ offset, offsets.Shows offset := by
  cases offsets with
  | gap => exact absurd rfl h
  | once offset => exact ⟨offset, rfl⟩
  | twice earlier later => exact ⟨earlier, .inl rfl⟩

theorem gap?_eq_none_iff :
    zone.gap? wall = none ↔ zone.wallOffsets wall ≠ .gap := gapFrom_eq_none_iff

/-- A gap of a zone with well-spaced changes: the offsets on both sides of it, and where its
readings lie. -/
theorem WellSpaced.gap_spec (hz : zone.WellSpaced) (h : zone.gap? wall = some gap) :
    (-86400 < gap.before ∧ gap.before < 86400) ∧
    (-86400 < gap.change.offset ∧ gap.change.offset < 86400) ∧
      gap.change.since + gap.before ≤ wall ∧ wall < gap.change.since + gap.change.offset := by
  obtain ⟨hfirst, hoffsets, hspaced⟩ := hz
  obtain ⟨hmem, hstart, hstop⟩ := gapFrom_bounds h
  have hbefore : zone.offsetAt (gap.change.since - 1) = gap.before :=
    (offsetFrom_near_gap hspaced h).1 (by omega) (by omega)
  have hbounds : -86400 < zone.offsetAt (gap.change.since - 1) ∧
      zone.offsetAt (gap.change.since - 1) < 86400 :=
    offsetFrom_bounds hfirst hoffsets _
  rw [hbefore] at hbounds
  exact ⟨hbounds, hoffsets gap.change hmem, hstart, hstop⟩

theorem WellSpaced.shows_bounds (hz : zone.WellSpaced) (h : (zone.wallOffsets wall).Shows offset) :
    -86400 < offset ∧ offset < 86400 := by
  obtain ⟨hfirst, hoffsets, hspaced⟩ := hz
  have hoffset := offsetFrom_of_shows hfirst hoffsets hspaced h
  exact hoffset ▸ offsetFrom_bounds hfirst hoffsets _

theorem push_of_gap? (h : zone.gap? wall = some gap) : zone.push wall = gap.length := by
  rw [push, h]
  rfl

theorem push_of_gap?_eq_none (h : zone.gap? wall = none) : zone.push wall = 0 := by
  rw [push, h]
  rfl

theorem WellSpaced.push_bounds (hz : zone.WellSpaced) (wall : Int) :
    0 ≤ zone.push wall ∧ zone.push wall < 172800 := by
  cases hg : zone.gap? wall with
  | none =>
    rw [push_of_gap?_eq_none hg]
    decide
  | some gap =>
    obtain ⟨hbefore, hafter, hstart, hstop⟩ := hz.gap_spec hg
    rw [push_of_gap? hg, Gap.length]
    omega

end Zone

namespace ZonedTime

theorem gap?_wall_eq_none {t : ZonedTime} (hz : t.zone.WellSpaced) :
    t.zone.gap? t.wall.second = none := by
  have hshows := Zone.shows_offsetFrom hz.1 hz.2.1 hz.2.2 t.utc.second
  rw [Zone.gap?_eq_none_iff]
  intro hgap
  change (t.zone.wallOffsets t.wall.second).Shows t.offset at hshows
  rw [hgap] at hshows
  exact hshows

end ZonedTime

end Almanac
