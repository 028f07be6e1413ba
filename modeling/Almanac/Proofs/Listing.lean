import Almanac.Proofs.ZonedTime.Period

namespace Almanac

namespace Listing

/-- A listing yields some names, one a step, and is then at its end for good. -/
inductive Yields : Listing → List String → Prop
  | done {l rest : Listing} : l.step = (none, rest) → rest.step = (none, rest) → Yields l []
  | name {l rest : Listing} {name : String} {names : List String} :
      l.step = (some name, rest) → Yields rest names → Yields l (name :: names)

variable {l : Listing} {t : ZonedTime}

theorem step_of_last_lt (h : l.last < l.next) : l.step = (none, l) := if_pos h

theorem step_of_some (h : ¬ l.last < l.next) (ht : l.instant? = some t) :
    l.step = (some (l.pattern.write t), { l with next := l.next + 1 }) := by
  rw [step, if_neg h, ht]

theorem step_of_none (h : ¬ l.last < l.next) (ht : l.instant? = none) :
    l.step = (none, { l with next := min (l.last + 1) Count.greatest }) := by
  rw [step, if_neg h, ht]

/-- A listing yields the names at its steps in order, and stops behind the last one or before the
first that leaves the calendar. -/
theorem exists_yields (count : Nat) (l : Listing) (hcount : l.last + 1 - l.next = count)
    (hlast : l.last < Count.greatest) :
    ∃ instants : List ZonedTime,
    (List.range instants.length).map (fun (i : Nat) ↦ l.start.plus? (l.next + i) l.pattern.unit) =
    instants.map some ∧ l.Yields (instants.map l.pattern.write) ∧
    (instants.length = count ∨ instants.length < count ∧
      l.start.plus? (l.next + instants.length) l.pattern.unit = none) := by
  induction count generalizing l with
  | zero =>
    have hstep := step_of_last_lt (show l.last < l.next by omega)
    exact ⟨[], rfl, .done hstep hstep, .inl rfl⟩
  | succ count ih =>
    have hnext : ¬ l.last < l.next := by omega
    cases ht : l.instant? with
    | none =>
      refine ⟨[], rfl, .done (step_of_none hnext ht) (step_of_last_lt ?_),
        .inr ⟨Nat.succ_pos _, ?_⟩⟩
      · change l.last < min (l.last + 1) Count.greatest
        omega
      · rw [List.length_nil, Int.natCast_zero, Int.add_zero]
        exact ht
    | some t =>
      obtain ⟨instants, hall, hyields, hend⟩ :=
        ih { l with next := l.next + 1 } (by simp only; omega) hlast
      have hshift (i : Nat) : l.next + 1 + (i : Int) = l.next + (i + 1 : Nat) := by omega
      refine ⟨t :: instants, ?_, .name (step_of_some hnext ht) hyields, ?_⟩
      · rw [List.length_cons, List.range_succ_eq_map, List.map_cons, List.map_cons, List.map_map,
          ← hall, Int.natCast_zero, Int.add_zero]
        refine congrArg₂ _ ht (List.map_congr_left fun i _ ↦ ?_)
        exact congrArg (l.start.plus? · l.pattern.unit) (hshift i).symm
      · rw [List.length_cons, ← hshift]
        rcases hend with hend | ⟨hlt, hnone⟩
        · exact .inl (congrArg Nat.succ hend)
        · exact .inr ⟨Nat.succ_lt_succ hlt, hnone⟩

theorem exists_yields_toNat (l : Listing) (hlast : l.last < Count.greatest) :
    ∃ instants : List ZonedTime,
    (List.range instants.length).map (fun (i : Nat) ↦ l.start.plus? (l.next + i) l.pattern.unit) =
      instants.map some ∧
    l.Yields (instants.map l.pattern.write) ∧
    (instants.length = (l.last + 1 - l.next).toNat ∨
      instants.length < (l.last + 1 - l.next).toNat ∧
      l.start.plus? (l.next + instants.length) l.pattern.unit = none) := by
  by_cases h : l.last < l.next
  · have hstep := step_of_last_lt h
    exact ⟨[], rfl, .done hstep hstep, .inl (Int.toNat_of_nonpos (by omega)).symm⟩
  · exact exists_yields (l.last + 1 - l.next).toNat l (by omega) hlast

theorem yields_of_names {name : Nat → String} (count : Nat) (l : Listing)
    (hcount : l.last + 1 - l.next = count)
    (h : ∀ i < count, ∃ t, l.start.plus? (l.next + i) l.pattern.unit = some t ∧
      l.pattern.write t = name i) :
    l.Yields ((List.range count).map name) := by
  induction count generalizing l name with
  | zero =>
    have hstep := step_of_last_lt (show l.last < l.next by omega)
    exact .done hstep hstep
  | succ count ih =>
    obtain ⟨t, ht, hname⟩ := h 0 (Nat.succ_pos _)
    rw [Int.natCast_zero, Int.add_zero] at ht
    rw [List.range_succ_eq_map, List.map_cons, List.map_map, ← hname]
    refine .name (step_of_some (by omega) ht)
      (ih { l with next := l.next + 1 } (by simp only; omega) fun i hi ↦ ?_)
    have hshift : l.next + 1 + (i : Int) = l.next + (i + 1 : Nat) := by omega
    exact hshift ▸ h (i + 1) (by omega)

theorem getElem_of_map_range {step : Nat → Option ZonedTime} {instants : List ZonedTime}
    (h : (List.range instants.length).map step = instants.map some) {i : Nat}
    (hi : i < instants.length) :
    step i = some instants[i] := by
  have hstep := congrArg (·[i]?) h
  simpa [hi] using hstep

/-- Where the steps to come stay in the calendar, the local times asked are those of the first
instant and of the instants written. -/
theorem mem_asked_iff {count : Nat} (hcount : l.next + count ≤ l.last + 1)
    (h : ∀ i < count, ∃ t, l.start.plus? (l.next + i) l.pattern.unit = some t) :
    t ∈ l.asked count ↔
      0 < count ∧ t = l.start ∨
      ∃ i < count, l.start.plus? (l.next + i) l.pattern.unit = some t := by
  induction count generalizing l with
  | zero => simp [asked]
  | succ count ih =>
    obtain ⟨first, hfirst⟩ := h 0 (Nat.succ_pos _)
    rw [Int.natCast_zero, Int.add_zero] at hfirst
    have hshift (i : Nat) : l.next + 1 + (i : Int) = l.next + (i + 1 : Nat) := by omega
    have hrest := @ih { l with next := l.next + 1 } (by simp only; omega) fun i hi ↦
      hshift i ▸ h (i + 1) (Nat.succ_lt_succ hi)
    simp only [hshift] at hrest
    rw [asked, if_neg (by omega), instant?, hfirst, List.mem_cons, List.mem_cons, hrest,
      Nat.exists_lt_succ_left, Int.natCast_zero, Int.add_zero, hfirst, Option.some_inj]
    constructor
    · rintro (h | h | ⟨-, h⟩ | h)
      · exact .inl ⟨Nat.succ_pos _, h⟩
      · exact .inr (.inl h.symm)
      · exact .inl ⟨Nat.succ_pos _, h⟩
      · exact .inr (.inr h)
    · rintro (⟨-, h⟩ | h | h)
      · exact .inl h
      · exact .inr (.inl h.symm)
      · exact .inr (.inr (.inr h))

theorem Yields.eq {names names' : List String} (h : l.Yields names) (h' : l.Yields names') :
    names = names' := by
  induction h generalizing names' with
  | done hstep _ =>
    cases h' with
    | done => rfl
    | name hstep' _ => cases hstep.symm.trans hstep'
  | name hstep _ ih =>
    cases h' with
    | done hstep' _ => cases hstep.symm.trans hstep'
    | name hstep' h' =>
      obtain ⟨hname, rfl⟩ := Prod.mk.inj (hstep.symm.trans hstep')
      rw [Option.some.inj hname, ih h']

theorem Yields.take_eq {names : List String} (h : l.Yields names) {count : Nat}
    (hcount : names.length ≤ count) :
    (l.take count).1 = names := by
  induction h generalizing count with
  | done hstep _ =>
    cases count with
    | zero => rfl
    | succ count => rw [take, hstep]
  | name hstep _ ih =>
    cases count with
    | zero => exact absurd hcount (Nat.not_succ_le_zero _)
    | succ count =>
      rw [take, hstep]
      exact congrArg (List.cons _) (ih (Nat.le_of_succ_le_succ hcount))

theorem Yields.toList_eq {names : List String} (h : l.Yields names)
    (hcount : names.length ≤ (l.last - l.next + 1).toNat) : l.toList = names := h.take_eq hcount

end Listing

theorem Letter.floorUnit_eq_of_ne {letter : Letter} (h : letter.unit ≠ .weekBasedYears) :
    letter.field.floorUnit = letter.unit := by
  cases letter with
  | weekBasedYear => exact absurd rfl h
  | _ => rfl

theorem Letter.floorUnit_eq {letter : Letter} (h : letter.unit ∈ CalendarUnit.regular) :
    letter.field.floorUnit = letter.unit := by
  refine floorUnit_eq_of_ne fun he ↦ ?_
  rw [he] at h
  exact absurd h (by decide)

namespace NamePattern

variable {p : NamePattern} {r : Reading}

/-- The names of a pattern are written at the steps from the first instant on, up to the last one
counted or the first that leaves the calendar. -/
theorem exists_names {start stop : ZonedTime}
    (hlast : (Listing.between p start stop).last < Count.greatest) :
    ∃ instants : List ZonedTime,
      (List.range instants.length).map (fun (i : Nat) ↦ start.plus? i p.unit) = instants.map some ∧
      p.names start stop = instants.map p.write ∧
      (instants.length = ((Listing.between p start stop).last + 1).toNat ∨
        instants.length < ((Listing.between p start stop).last + 1).toNat ∧
        start.plus? instants.length p.unit = none) := by
  obtain ⟨instants, hall, hyields, hend⟩ := (Listing.between p start stop).exists_yields_toNat hlast
  have hnext : (Listing.between p start stop).next = 0 := rfl
  simp only [hnext, Int.zero_add, Int.sub_zero] at hall hend
  refine ⟨instants, hall, hyields.toList_eq ?_, hend⟩
  rw [List.length_map, hnext]
  omega

theorem namesChecked_eq_ok_iff {start stop : ZonedTime} {names : List String} :
    p.namesChecked start stop = .ok names ↔
      ((∀ t ∈ Listing.askedBetween p start stop, t.wall.InCalendar) ∧
        ∀ t ∈ (Listing.between p start stop).asked ((Listing.between p start stop).last + 1).toNat,
          t.wall.InCalendar) ∧
      p.names start stop = names := by
  have hnext : (Listing.between p start stop).next = 0 := rfl
  rw [namesChecked, Listing.betweenChecked, ZonedTime.checked_bind_eq_ok_iff, Listing.toListChecked,
    ZonedTime.checked_eq_ok_iff, hnext, Int.sub_zero, and_assoc]
  rfl

theorem names_eq_map_range {start stop : ZonedTime} {last : Int} {count : Nat} {name : Nat → String}
    (hb : Listing.between p start stop = ⟨p, start, 0, last⟩) (hcount : last + 1 = count)
    (h : ∀ i < count, ∃ t, start.plus? i p.unit = some t ∧ p.write t = name i) :
    p.names start stop = (List.range count).map name := by
  rw [names, hb]
  refine (Listing.yields_of_names count _ ?_ fun i hi ↦ ?_).toList_eq ?_
  · rw [Int.sub_zero, hcount]
  · rw [Int.zero_add]
    exact h i hi
  · rw [List.length_map, List.length_range, Int.sub_zero, hcount, Int.toNat_natCast]

theorem floorTo?_eq_floor? (hu : p.unit ≠ .weekBasedYears) (t : ZonedTime) :
    t.floorTo? p.lowest = t.floor? p.unit := by
  rw [ZonedTime.floorTo?_eq, Letter.floorUnit_eq_of_ne hu]
  rfl

/-- Nanoseconds are not floored, and as many are counted as 64 bits hold. -/
theorem between_of_nanos (hu : p.unit = .nanos) (start stop : ZonedTime) :
    Listing.between p start stop = ⟨p, start, 0, Count.clamp (stop.utc.since start.utc)⟩ := by
  have hfloor (t : ZonedTime) : t.floorTo? p.lowest = some t := by
    rw [floorTo?_eq_floor? (by rw [hu]; decide), hu]
    rfl
  rw [Listing.between, hfloor, hfloor, hu]
  rfl

theorem utc_floorTo?_lowest (hu : p.unit ∈ CalendarUnit.regular) (h : ¬ r.IsLeapSecond)
    (hc : r.InCalendar) :
    (⟨.utc, r⟩ : ZonedTime).floorTo? p.lowest =
    ZonedTime.covered? .utc (.ofPeriod (r.period p.unit) p.unit) := by
  rw [ZonedTime.floorTo?_eq, Letter.floorUnit_eq hu, ZonedTime.utc_floor? (fun _ ↦ h) hc]
  rfl

/-- In UTC a listing goes through the periods from that of the first instant to that of the last,
one name in each, unless it leaves the calendar before. -/
theorem names_step_through_periods (hu : p.unit ∈ CalendarUnit.regular) {start stop : ZonedTime}
    (hz : start.zone = .utc) (hz' : stop.zone = .utc) (hc : start.utc.InCalendar)
    (hc' : stop.utc.InCalendar) (hl : ¬ start.utc.IsLeapSecond) (hl' : ¬ stop.utc.IsLeapSecond)
    (hle : start.utc ≤ stop.utc) {first final : ZonedTime}
    (hf : start.floorTo? p.lowest = some first) (hf' : stop.floorTo? p.lowest = some final) :
    0 ≤ first.unitsUntil final p.unit ∧
    (∃ instants : List ZonedTime,
      (List.range instants.length).map (fun (i : Nat) ↦ start.plus? i p.unit) = instants.map some ∧
      (Listing.between p start stop).Yields (instants.map p.write) ∧
      ((instants.length : Int) = first.unitsUntil final p.unit + 1 ∨
        (instants.length : Int) < first.unitsUntil final p.unit + 1 ∧
          start.plus? instants.length p.unit = none)) ∧
    (∀ (amount : Int) (t : ZonedTime), start.plus? amount p.unit = some t →
      t.floorTo? p.lowest = first.plus? amount p.unit) ∧
    first.plus? (first.unitsUntil final p.unit) p.unit = some final := by
  obtain ⟨zone, r⟩ := start
  obtain ⟨zone', r'⟩ := stop
  obtain rfl : zone = .utc := hz
  obtain rfl : zone' = .utc := hz'
  have hbetween : Listing.between p ⟨.utc, r⟩ ⟨.utc, r'⟩ =
      ⟨p, ⟨.utc, r⟩, 0, first.unitsUntil final p.unit⟩ := by
    rw [Listing.between, hf, hf']
  rw [utc_floorTo?_lowest hu hl hc] at hf
  rw [utc_floorTo?_lowest hu hl' hc'] at hf'
  obtain ⟨-, rfl⟩ := ZonedTime.eq_of_covered? hf
  obtain ⟨-, rfl⟩ := ZonedTime.eq_of_covered? hf'
  rw [hbetween, ZonedTime.utc_unitsUntil_ofPeriod hu]
  dsimp only
  have hperiods : r.period p.unit ≤ r'.period p.unit := Reading.period_le hl hle p.unit
  have hb := @Reading.period_bounds r p.unit hc hl hu
  have hb' := @Reading.period_bounds r' p.unit hc' hl' hu
  refine ⟨by omega, ?_, ?_, ?_⟩
  · obtain ⟨instants, hall, hyields, hend⟩ := Listing.exists_yields
      (r'.period p.unit - r.period p.unit + 1).toNat ⟨p, ⟨.utc, r⟩, 0,
        r'.period p.unit - r.period p.unit⟩
      (by simp only; omega) (by simp only [Count.greatest]; omega)
    simp only [Int.zero_add] at hall hend
    refine ⟨instants, hall, hyields, ?_⟩
    rcases hend with hend | ⟨hlt, hnone⟩
    · exact .inl (by omega)
    · exact .inr ⟨by omega, hnone⟩
  · intro amount t ht
    obtain ⟨hzone, hcovered, hleap, hperiod⟩ := ZonedTime.utc_period_plus? hl hu ht
    obtain ⟨zone, moved⟩ := t
    obtain rfl : zone = .utc := hzone
    rw [utc_floorTo?_lowest hu hleap hcovered, ZonedTime.utc_plus?_ofPeriod hu]
    exact congrArg (fun n ↦ ZonedTime.covered? .utc (.ofPeriod n p.unit)) hperiod
  · rw [ZonedTime.utc_plus?_ofPeriod hu,
      show r.period p.unit + (r'.period p.unit - r.period p.unit) =
      r'.period p.unit by omega, hf']

theorem names_of_short_months :
    let p : NamePattern := ⟨.monthOfYear, .ofPattern "uuuu.MM",
      ⟨"uuuu.MM", [.number .year 4 10, .literal ['.'], .number .monthOfYear 2 2]⟩⟩
    let start : ZonedTime := ⟨.utc, .ofDate (.ofYmd 2024 1 31) 0 0⟩
    let stop : ZonedTime := ⟨.utc, .ofDate (.ofYmd 2024 4 1) 0 0⟩
    (Listing.between p start stop).Yields ["2024.01", "2024.02", "2024.03", "2024.04"] := by
  intro p start stop
  have hf : start.floorTo? p.lowest = some ⟨.utc, .ofDate (.ofYmd 2024 1 1) 0 0⟩ := by decide
  have hf' : stop.floorTo? p.lowest = some ⟨.utc, .ofDate (.ofYmd 2024 4 1) 0 0⟩ := by decide
  obtain ⟨-, ⟨instants, hall, hyields, hend⟩, -⟩ :=
    names_step_through_periods (p := p) (by decide) rfl rfl (show start.utc.InCalendar by decide)
      (show stop.utc.InCalendar by decide) (by decide) (by decide) (by decide) hf hf'
  have hcount : ZonedTime.unitsUntil ⟨.utc, .ofDate (.ofYmd 2024 1 1) 0 0⟩
      ⟨.utc, .ofDate (.ofYmd 2024 4 1) 0 0⟩
      p.unit = 3 := by decide
  have hsome : ∀ n < 4, start.plus? (n : Nat) p.unit ≠ none := by decide
  rw [hcount] at hend
  have hlength : instants.length = 4 := by
    rcases hend with hend | ⟨hlt, hnone⟩
    · omega
    · exact absurd hnone (hsome _ (by omega))
  have heval : (List.range 4).map (fun (i : Nat) ↦ start.plus? i p.unit) =
      [⟨.utc, .ofDate (.ofYmd 2024 1 31) 0 0⟩, ⟨.utc, .ofDate (.ofYmd 2024 2 29) 0 0⟩,
        ⟨.utc, .ofDate (.ofYmd 2024 3 31) 0 0⟩, ⟨.utc, .ofDate (.ofYmd 2024 4 30) 0 0⟩].map
        some := by decide
  rw [hlength, heval] at hall
  obtain rfl := (List.map_inj_right fun _ _ h ↦ Option.some.inj h).1 hall
  exact hyields

end NamePattern

end Almanac
