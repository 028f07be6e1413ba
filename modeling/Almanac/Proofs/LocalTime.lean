import Almanac.Proofs.Checked
import Almanac.Proofs.Listing
import Almanac.Proofs.ZonedTime.Localize
import Almanac.Resolver

namespace Almanac

namespace ZonedTime

variable {t : ZonedTime}

/-- Away from the first and the last day of the calendar every instant has a local time. -/
theorem wall_inCalendar_of_inner (hz : t.zone.WellSpaced) (h : (t.utc.shift (-86400)).InCalendar)
    (h' : (t.utc.shift 86400).InCalendar) : t.wall.InCalendar := by
  have hoffset := offset_bounds hz
  rw [Reading.inCalendar_iff_second] at h h' ⊢
  simp only [wall, Reading.shift] at h h' ⊢
  omega

end ZonedTime

namespace MathStep

variable {step : MathStep} {row : List (Except MathFault MathStep)} {s t r : ZonedTime}

theorem covered_of_applyTo? (hc : t.utc.InCalendar) (h : step.applyTo? t = some r) :
    r.zone = t.zone ∧ r.utc.InCalendar := by
  rw [applyTo?] at h
  split at h
  · exact ZonedTime.covered_of_floor? hc h
  · exact ZonedTime.covered_of_plus? h

theorem covered_of_mem_asked (hc : t.utc.InCalendar) (h : s ∈ asked row t) :
    s.zone = t.zone ∧ s.utc.InCalendar := by
  induction row generalizing t with
  | nil => cases h
  | cons item row ih =>
    cases item with
    | error fault => cases h
    | ok step =>
      rw [asked] at h
      rcases List.mem_cons.1 h with rfl | h
      · exact ⟨rfl, hc⟩
      · cases hstep : step.applyTo? t with
        | none => simp [hstep] at h
        | some next =>
          obtain ⟨hzone, hnext⟩ := covered_of_applyTo? hc hstep
          rw [hstep] at h
          exact hzone ▸ ih hnext h

theorem applyAllChecked_of_utc (hz : t.zone = .utc) (hc : t.utc.InCalendar) (suffix : String) :
    applyAllChecked suffix t = .ok (applyAll suffix t) := by
  refine ZonedTime.checked_eq_ok_iff.2 ⟨fun s hs ↦ ?_, rfl⟩
  obtain ⟨hzone, hcovered⟩ := covered_of_mem_asked hc hs
  exact ZonedTime.wall_inCalendar_of_utc (hzone.trans hz) hcovered

end MathStep

namespace Resolver

variable {r : Resolver} {t : ZonedTime} {expression : String} {suffix : List Char}

theorem covered_of_place {values : FieldValues} {zone : Zone} (h : values.place zone = .ok t) :
    t.zone = zone ∧ t.utc.InCalendar := by
  obtain ⟨reading, -, h⟩ := exists_of_bind_eq_ok h
  cases ht : zone.localize? reading with
  | none => simp [ht, throw, throwThe, MonadExceptOf.throw] at h
  | some found =>
    rw [ht] at h
    obtain rfl := Except.ok.inj h
    exact Zone.covered_of_attach? ht

theorem covered_of_anchor {date : String} (h : r.anchor date = .ok t) :
    t.zone = r.settings.zone ∧ t.utc.InCalendar := by
  rw [anchor] at h
  split at h
  · rename_i found hplace
    obtain ⟨values, -, hplace⟩ := exists_of_bind_eq_ok hplace
    obtain rfl := Except.ok.inj h
    exact covered_of_place hplace
  · cases h

theorem covered_of_start (hc : r.settings.now.InCalendar)
    (h : r.start expression = .ok (t, suffix)) :
    t.zone = r.settings.zone ∧ t.utc.InCalendar := by
  rw [start] at h
  split at h
  · obtain ⟨rfl, -⟩ := Prod.mk.inj (Except.ok.inj h)
    exact ⟨rfl, hc⟩
  · obtain ⟨found, hanchor, h⟩ := exists_of_bind_eq_ok h
    obtain ⟨rfl, -⟩ := Prod.mk.inj (Except.ok.inj h)
    exact covered_of_anchor hanchor

theorem resolveChecked_of_utc (hz : r.settings.zone = .utc) (hc : r.settings.now.InCalendar)
    (expression : String) : r.resolveChecked expression = .ok (r.resolve expression) := by
  refine ZonedTime.checked_eq_ok_iff.2 ⟨fun s hs ↦ ?_, rfl⟩
  rw [asked] at hs
  split at hs
  · rename_i t suffix hstart
    obtain ⟨hzone, hcovered⟩ := covered_of_start hc hstart
    obtain ⟨hzone', hcovered'⟩ := MathStep.covered_of_mem_asked hcovered hs
    exact ZonedTime.wall_inCalendar_of_utc ((hzone'.trans hzone).trans hz) hcovered'
  · cases hs

end Resolver

namespace Listing

variable {l : Listing} {count : Nat} {p : NamePattern} {start stop t : ZonedTime}

theorem covered_of_mem_asked (hc : l.start.utc.InCalendar) (h : t ∈ l.asked count) :
    t.zone = l.start.zone ∧ t.utc.InCalendar := by
  induction count generalizing l with
  | zero => cases h
  | succ count ih =>
    rw [asked] at h
    split at h
    · cases h
    · rcases List.mem_cons.1 h with rfl | h
      · exact ⟨rfl, hc⟩
      · cases ht : l.instant? with
        | none => simp [ht] at h
        | some next =>
          rw [ht] at h
          rcases List.mem_cons.1 h with rfl | h
          · exact ZonedTime.covered_of_plus? ht
          · exact @ih { l with next := l.next + 1 } hc h

theorem wall_inCalendar_of_mem_askedBetween (hz : start.zone = .utc) (hz' : stop.zone = .utc)
    (hc : start.utc.InCalendar) (hc' : stop.utc.InCalendar) (h : t ∈ askedBetween p start stop) :
    t.wall.InCalendar := by
  have hlocal {t : ZonedTime} (h : t.zone = .utc ∧ t.utc.InCalendar) : t.wall.InCalendar :=
    ZonedTime.wall_inCalendar_of_utc h.1 h.2
  rw [askedBetween] at h
  rcases List.mem_cons.1 h with rfl | h
  · exact hlocal ⟨hz, hc⟩
  rcases List.mem_cons.1 h with rfl | h
  · exact hlocal ⟨hz', hc'⟩
  split at h
  · rename_i first final hf hf'
    obtain ⟨hzone, hfirst⟩ := ZonedTime.covered_of_floorTo? hc hf
    rw [ZonedTime.askedByCount] at h
    split at h
    · cases h
    · rcases List.mem_cons.1 h with rfl | h
      · exact hlocal ⟨hzone.trans hz, hfirst⟩
      · obtain rfl := List.mem_singleton.1 h
        exact hlocal ⟨hzone.trans hz, (ZonedTime.covered_of_floorTo? hc' hf').2⟩
  · cases h

end Listing

/-- Listings in UTC never break down. -/
theorem NamePattern.namesChecked_of_utc (p : NamePattern) {start stop : ZonedTime}
    (hz : start.zone = .utc) (hz' : stop.zone = .utc) (hc : start.utc.InCalendar)
    (hc' : stop.utc.InCalendar) : p.namesChecked start stop = .ok (p.names start stop) := by
  refine namesChecked_eq_ok_iff.2 ⟨⟨fun t ht ↦ ?_, fun t ht ↦ ?_⟩, rfl⟩
  · exact Listing.wall_inCalendar_of_mem_askedBetween hz hz' hc hc' ht
  · obtain ⟨hzone, hcovered⟩ :=
      Listing.covered_of_mem_asked (l := Listing.between p start stop) hc ht
    exact ZonedTime.wall_inCalendar_of_utc (hzone.trans hz) hcovered

end Almanac
