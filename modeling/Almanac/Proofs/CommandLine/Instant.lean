import Almanac.CommandLine.Run
import Almanac.Proofs.Rfc3339
import Almanac.Proofs.ZonedTime.Localize

namespace Almanac

namespace Zone

variable {zone : Zone} {current start second : Int} {changes : List OffsetChange}

theorem dvd_offsetFrom (hs : changes.Pairwise fun a b ↦ a.since + 172800 ≤ b.since)
    (hstart : 60 ∣ offsetFrom current changes start)
    (hc : ∀ change ∈ changes, start ≤ change.since → 60 ∣ change.offset) (h : start ≤ second) :
    60 ∣ offsetFrom current changes second := by
  induction changes generalizing current with
  | nil => exact hstart
  | cons change rest ih =>
    obtain ⟨hfirst, hrest⟩ := List.pairwise_cons.1 hs
    have hlater := @ih change.offset hrest
    rw [offsetFrom] at hstart ⊢
    by_cases hpassed : change.since ≤ start
    · rw [if_pos hpassed] at hstart
      rw [if_pos (Int.le_trans hpassed h)]
      exact hlater hstart fun other hm ↦ hc other (List.mem_cons_of_mem _ hm)
    · rw [if_neg hpassed] at hstart
      split
      · refine hlater ?_ fun other hm ↦ hc other (List.mem_cons_of_mem _ hm)
        rcases @offsetFrom_eq_or change.offset rest _ hfirst start with he | hfar
        · rw [he]
          exact hc change List.mem_cons_self (by omega)
        · omega
      · exact hstart

theorem dvd_offsetAt_of_mem_table (hz : zone ∈ table) (h : 63593070 ≤ second) :
    60 ∣ zone.offsetAt second := by
  have hwhole : ∀ zone ∈ table, 60 ∣ zone.offsetAt 63593070 ∧
      ∀ change ∈ zone.changes, 63593070 ≤ change.since → 60 ∣ change.offset := by decide +kernel
  obtain ⟨hstart, hc⟩ := hwhole zone hz
  exact dvd_offsetFrom (regular_of_mem_table hz).wellSpaced.2.2 hstart hc h

end Zone

namespace CommandLine

open Rfc3339

variable {resolver : Resolver} {t : ZonedTime}

theorem instant_write (hz : resolver.settings.zone = t.zone) (hl : ¬ t.utc.IsLeapSecond)
    (hy : 0 ≤ t.wall.date.year ∧ t.wall.date.year ≤ 9999)
    (ho : -86370 < t.offset ∧ t.offset < 86370) :
    instant resolver (write t) = .ok ⟨t.zone, t.utc.shift (t.offset - printedOffset t.offset)⟩ := by
  have hread : read? (write t) = some (t.wall.shift (-printedOffset t.offset)) :=
    read?_text hl hy ho.1 ho.2
  rw [instant, hread]
  simp only
  simp [hz, ZonedTime.wall, ← Int.sub_eq_add_neg]

/-- What is printed for an instant is read as that instant wherever its zone is whole minutes from
UTC, as all zones of the table are since 1972. Elsewhere it is read as an instant that differs by
what the printed offset was rounded. -/
theorem printed_instant_comes_back (hz : resolver.settings.zone = t.zone)
    (hl : ¬ t.utc.IsLeapSecond) (hy : 0 ≤ t.wall.date.year ∧ t.wall.date.year ≤ 9999)
    (ho : -86400 < t.offset ∧ t.offset < 86400) (expression : String) :
    (60 ∣ t.offset ∨ t.zone ∈ Zone.table ∧ 63593070 ≤ t.utc.second →
      instant resolver (resolvedLine false expression t) = .ok t) ∧
    (-86370 < t.offset → t.offset < 86370 →
      instant resolver (resolvedLine false expression t) =
        .ok ⟨t.zone, t.utc.shift (t.offset - printedOffset t.offset)⟩ ∧
      (instant resolver (resolvedLine false expression t) = .ok t ↔ 60 ∣ t.offset)) := by
  have hline : resolvedLine false expression t = write t := rfl
  rw [hline]
  have hwhole (h : 60 ∣ t.offset) : instant resolver (write t) = .ok t := by
    simp [instant_write hz hl hy (by omega), printedOffset_eq_iff.2 h]
  refine ⟨fun h ↦ hwhole (h.elim id fun h ↦ Zone.dvd_offsetAt_of_mem_table h.1 h.2), fun h₁ h₂ ↦ ?_⟩
  have hread := instant_write hz hl hy ⟨h₁, h₂⟩
  refine ⟨hread, fun h ↦ ?_, hwhole⟩
  rw [hread] at h
  have hutc : t.utc.shift (t.offset - printedOffset t.offset) = t.utc :=
    congrArg ZonedTime.utc (Except.ok.inj h)
  have hsecond : t.utc.second + (t.offset - printedOffset t.offset) = t.utc.second :=
    congrArg Reading.second hutc
  exact printedOffset_eq_iff.1 (by omega)

theorem printed_in_kathmandu_and_new_york :
    let kathmandu : ZonedTime := ⟨.asiaKathmandu, ⟨0, 500000000⟩⟩
    let newYork : ZonedTime := ⟨.americaNewYork, ⟨-2717650801, 0⟩⟩
    let resolver (zone : Zone) : Resolver :=
      ⟨⟨Settings.defaultPattern, zone, ⟨0, 0⟩, Settings.defaultNowToken⟩, ⟨"", []⟩⟩
    kathmandu.offset = 19800 ∧
      instant (resolver .asiaKathmandu) (resolvedLine false "now" kathmandu) = .ok kathmandu ∧
      newYork.offset = -17762 ∧ instant (resolver .americaNewYork)
      (resolvedLine false "now" newYork) =
        .ok ⟨.americaNewYork, ⟨-2717650803, 0⟩⟩ := by
  intro kathmandu newYork resolver
  have hkathmandu : kathmandu.offset = 19800 := by decide
  have hnewYork : newYork.offset = -17762 := by decide +kernel
  obtain ⟨hexact, -⟩ :=
    @printed_instant_comes_back (resolver .asiaKathmandu) kathmandu rfl (by decide)
      (by decide +kernel) (by decide) "now"
  obtain ⟨-, hrounded⟩ :=
    @printed_instant_comes_back (resolver .americaNewYork) newYork rfl (by decide)
      (by decide +kernel) (by rw [hnewYork]; decide) "now"
  obtain ⟨hread, -⟩ := hrounded (by rw [hnewYork]; decide) (by rw [hnewYork]; decide)
  rw [hnewYork] at hread
  exact ⟨hkathmandu, hexact (.inl (by rw [hkathmandu]; decide)), hnewYork, hread⟩

/-- In 1950 Monrovia was 44 minutes and 30 seconds behind UTC. Its midnight at the start of that
year is printed with 45 minutes and comes back as the instant half a minute later. -/
theorem monrovia_midnight_comes_back_late :
    let midnight : ZonedTime := ⟨.africaMonrovia, ⟨-631149330, 0⟩⟩
    let resolver : Resolver :=
      ⟨⟨Settings.defaultPattern, .africaMonrovia, ⟨0, 0⟩, Settings.defaultNowToken⟩, ⟨"", []⟩⟩
    resolver.settings.zone = midnight.zone ∧ midnight.zone ∈ Zone.table ∧
    ¬ midnight.utc.IsLeapSecond ∧
      (0 ≤ midnight.wall.date.year ∧ midnight.wall.date.year ≤ 9999) ∧
      resolvedLine false "now" midnight = "1950-01-01T00:00:00-00:45" ∧
      instant resolver (resolvedLine false "now" midnight) ≠ .ok midnight := by
  intro midnight resolver
  have hyear : 0 ≤ midnight.wall.date.year ∧ midnight.wall.date.year ≤ 9999 := by decide +kernel
  have hlate := @instant_write resolver midnight rfl (by decide) hyear (by decide)
  have hshift : midnight.utc.shift (midnight.offset - printedOffset midnight.offset) =
      ⟨-631149300, 0⟩ := by decide
  refine ⟨rfl, by simp [midnight, Zone.table], by decide, hyear, by decide +kernel, fun hback ↦ ?_⟩
  rw [hshift] at hlate
  have heq : (⟨.africaMonrovia, ⟨-631149300, 0⟩⟩ : ZonedTime) = midnight :=
    Except.ok.inj (hlate.symm.trans hback)
  exact absurd (congrArg (·.utc.second) heq) (by decide)

end CommandLine

end Almanac
