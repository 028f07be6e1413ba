import Almanac.Proofs.Listing.Reversed

namespace Almanac

namespace Listing

variable {l : Listing}

def after (l : Listing) : Nat → Listing
  | 0 => l
  | count + 1 => (l.after count).step.2

/-- What a listing announces is never less than the names still to come and is their number just if
all of them stay in the calendar. It goes down by one with each name, and at the end nothing is
announced. -/
structure Announces (l : Listing) : Prop where
  yields : ∃ names, l.Yields names
  bound : ∀ names, l.Yields names → names.length ≤ l.remaining
  tight : ∀ names, l.Yields names →
    (names.length = l.remaining ↔
      ∀ i, l.next ≤ i → i ≤ l.last → l.start.plus? i l.pattern.unit ≠ none)
  lowered : ∀ name rest, l.step = (some name, rest) → l.remaining = rest.remaining + 1
  ended : ∀ rest, l.step = (none, rest) → ∀ count, (rest.after count).remaining = 0

theorem remaining_eq (hlast : l.last < Count.greatest) (hnext : 0 ≤ l.next) :
    l.remaining = (l.last - l.next + 1).toNat := if_pos (by omega)

theorem step_cases (hlast : l.last < Count.greatest) :
    (∃ name, l.next ≤ l.last ∧ l.step = (some name, { l with next := l.next + 1 })) ∨
      ∃ next, l.next ≤ next ∧ l.last < next ∧ l.step = (none, { l with next := next }) := by
  by_cases h : l.last < l.next
  · exact .inr ⟨l.next, Int.le_refl _, h, step_of_last_lt h⟩
  · cases ht : l.instant? with
    | none => exact .inr ⟨_, by omega, by omega, step_of_none h ht⟩
    | some t => exact .inl ⟨_, by omega, step_of_some h ht⟩

theorem after_of_last_lt (h : l.last < l.next) (count : Nat) : l.after count = l := by
  induction count with
  | zero => rfl
  | succ count ih => rw [after, ih, step_of_last_lt h]

theorem after_bounds (hlast : l.last < Count.greatest) (hnext : 0 ≤ l.next) (count : Nat) :
    (l.after count).last < Count.greatest ∧ 0 ≤ (l.after count).next := by
  induction count with
  | zero => exact ⟨hlast, hnext⟩
  | succ count ih =>
    obtain ⟨hlast', hnext'⟩ := ih
    rw [after]
    rcases step_cases hlast' with ⟨name, -, hstep⟩ | ⟨next, hle, -, hstep⟩
    · rw [hstep]
      exact ⟨hlast', Int.le_trans hnext' (Int.le_add_of_nonneg_right (by decide))⟩
    · rw [hstep]
      exact ⟨hlast', Int.le_trans hnext' hle⟩

theorem after_eq (count : Nat) (hcount : l.next + count ≤ l.last + 1)
    (h : ∀ i < count, l.start.plus? (l.next + i) l.pattern.unit ≠ none) :
    l.after count = { l with next := l.next + count } := by
  induction count with
  | zero => rw [after, Int.natCast_zero, Int.add_zero]
  | succ count ih =>
    obtain ⟨t, ht⟩ := Option.ne_none_iff_exists'.1 (h count (Nat.lt_succ_self _))
    have hnext : ¬ l.last < l.next + count := by omega
    have hstep := @step_of_some { l with next := l.next + count } t hnext ht
    rw [after, ih (by omega) fun i hi ↦ h i (Nat.lt_succ_of_lt hi), hstep, Int.natCast_succ,
      Int.add_assoc]

theorem Yields.length_remaining {names : List String} (h : l.Yields names)
    (hlast : l.last < Count.greatest) (hnext : 0 ≤ l.next) :
    names.length ≤ l.remaining ∧ (names.length = l.remaining ↔
      ∀ i, l.next ≤ i → i ≤ l.last → l.start.plus? i l.pattern.unit ≠ none) := by
  obtain ⟨instants, hall, hyields, hend⟩ := l.exists_yields_toNat hlast
  have hremaining := remaining_eq hlast hnext
  rw [h.eq hyields, List.length_map]
  refine ⟨by omega, fun hfull i hlow hhigh ↦ ?_, fun hcovered ↦ ?_⟩
  · obtain ⟨count, rfl⟩ := Int.le.dest hlow
    rw [getElem_of_map_range hall (show count < instants.length by omega)]
    exact Option.some_ne_none _
  · rcases hend with hend | ⟨hlt, hnone⟩
    · omega
    · exact absurd hnone (hcovered _ (by omega) (by omega))

theorem remaining_of_step_some {name : String} {rest : Listing} (hlast : l.last < Count.greatest)
    (hnext : 0 ≤ l.next) (h : l.step = (some name, rest)) : l.remaining = rest.remaining + 1 := by
  rcases step_cases hlast with ⟨name', hle, hstep⟩ | ⟨next, -, -, hstep⟩
  · obtain ⟨-, rfl⟩ := Prod.mk.inj (h.symm.trans hstep)
    have hremaining := remaining_eq hlast hnext
    have hrest := @remaining_eq { l with next := l.next + 1 } hlast (by simp only; omega)
    simp only at hrest
    omega
  · cases h.symm.trans hstep

theorem remaining_of_step_none {rest : Listing} (hlast : l.last < Count.greatest)
    (hnext : 0 ≤ l.next) (h : l.step = (none, rest)) (count : Nat) :
    (rest.after count).remaining = 0 := by
  rcases step_cases hlast with ⟨name, -, hstep⟩ | ⟨next, hle, hlt, hstep⟩
  · cases h.symm.trans hstep
  · obtain ⟨-, rfl⟩ := Prod.mk.inj (h.symm.trans hstep)
    have hrest := @remaining_eq { l with next := next } hlast (Int.le_trans hnext hle)
    rw [after_of_last_lt hlt, hrest]
    exact Int.toNat_of_nonpos (by simp only; omega)

theorem announces (hlast : l.last < Count.greatest) (hnext : 0 ≤ l.next) : l.Announces where
  yields := by
    obtain ⟨instants, -, hyields, -⟩ := l.exists_yields_toNat hlast
    exact ⟨_, hyields⟩
  bound _ h := (h.length_remaining hlast hnext).1
  tight _ h := (h.length_remaining hlast hnext).2
  lowered _ _ := remaining_of_step_some hlast hnext
  ended _ := remaining_of_step_none hlast hnext

theorem remaining_of_saturated (hlast : l.last = Count.greatest) (hnext : l.next = 0) :
    l.remaining = 0 :=
  if_neg (by omega)

theorem not_announces (hlast : l.last = Count.greatest) (hnext : l.next = 0)
    (ht : l.instant? ≠ none) :
    ¬ l.Announces := by
  intro h
  obtain ⟨t, ht⟩ := Option.ne_none_iff_exists'.1 ht
  have hle : ¬ l.last < l.next := by
    rw [hlast, hnext]
    decide
  have hlowered := h.lowered _ _ (step_of_some hle ht)
  rw [remaining_of_saturated hlast hnext] at hlowered
  exact Nat.succ_ne_zero _ hlowered.symm

end Listing

theorem Count.tdiv_lt_greatest {n length : Int} (hl : 1000000 ≤ length)
    (h : n < 9000000000000000000000000) :
    n.tdiv length < greatest := by
  have hnear := (tdiv_near (show 0 < length by omega) n).2
  by_contra hlarge
  have hwhole : greatest * length ≤ n.tdiv length * length :=
    Int.mul_le_mul_of_nonneg_right (Int.not_lt.1 hlarge) (by omega)
  unfold greatest at hwhole
  omega

namespace Date

variable {d e : Date} {unit : CalendarUnit}

theorem unitsUntil_lt (hu : unit ∈ CalendarUnit.dated) (hd : -100000000 ≤ d.epochDay)
    (he : e.epochDay ≤ 100000000) :
    d.unitsUntil e unit < Count.greatest := by
  rcases Int.le_total d.epochDay e.epochDay with h | h
  · obtain ⟨hnonneg, hfloor, -⟩ := unitsUntil_floor hu h
    have hfirst : (⟨-100000000⟩ : Date).scale unit ≤ d.scale unit := (le_iff_scale unit).1 hd
    have hlast : e.scale unit ≤ (⟨100000000⟩ : Date).scale unit := (le_iff_scale unit).1 he
    have hwide : (⟨100000000⟩ : Date).scale unit - (⟨-100000000⟩ : Date).scale unit <
        Count.greatest := by
      cases unit <;> decide +kernel
    have hless := Int.mul_le_mul_of_nonneg_left (Int.add_one_le_of_lt unit.span_pos) hnonneg
    omega
  · have hback := (unitsUntil_ceil hu h).1
    exact Int.lt_of_le_of_lt hback (by decide)

end Date

namespace Reading

variable {r stop : Reading} {lapse : Int}

theorem nano_advance_lt (hn : r.nano < 2000000000) : (r.advance lapse).nano < 2000000000 := by
  unfold advance
  split
  · rename_i hl
    unfold IsLeapSecond at hl
    simp only
    split
    · exact Nat.lt_trans (nano_lt (not_isLeapSecond_ofNanos _)) (by decide)
    · split
      · exact Nat.lt_trans (nano_lt (not_isLeapSecond_ofNanos _)) (by decide)
      · simp only [nanosPerSecond] at *
        omega
  · exact Nat.lt_trans (nano_lt (not_isLeapSecond_ofNanos _)) (by decide)

theorem since_le (stop r : Reading) : stop.since r ≤ stop.toNanos - r.toNanos + nanosPerSecond := by
  unfold since nanosPerSecond
  simp only
  split
  · omega
  · split <;> omega

theorem since_lt (hc : r.InCalendar) (hc' : stop.InCalendar) (hn : stop.nano < 2000000000) :
    stop.since r < 9000000000000000000000000 := by
  have hle := since_le stop r
  rw [inCalendar_iff_second] at hc hc'
  unfold toNanos nanosPerSecond at hle
  omega

theorem nano_flooredTime_le (r : Reading) (unit : CalendarUnit) :
    (r.flooredTime unit).2 ≤ r.nano := by
  cases unit with
  | nanos => exact Nat.le_refl _
  | millis => exact Nat.div_mul_le_self _ _
  | _ => exact Nat.zero_le _

/-- Forwards from a leap second only its fraction changes, or it no longer counts. -/
theorem advance_of_leapSecond (hl : r.IsLeapSecond) (hlow : 0 ≤ lapse) :
    r.advance lapse = ofNanos (r.toNanos - nanosPerSecond + lapse) ∨
    (r.advance lapse).second = r.second := by
  have hforwards : ¬ lapse.tdiv nanosPerSecond < 0 :=
    Int.not_lt.2 (Int.tdiv_nonneg hlow (by decide))
  rw [advance, if_pos hl]
  simp only
  split
  · exact .inl rfl
  · exact .inr rfl

theorem second_advance_between (hl : ¬ stop.IsLeapSecond) (hlow : 0 ≤ lapse)
    (hhigh : lapse ≤ stop.since r) :
    r.second ≤ (r.advance lapse).second ∧ (r.advance lapse).second ≤ stop.second := by
  have hnano := nano_lt hl
  by_cases hleap : r.IsLeapSecond
  · have hle := since_le stop r
    have hmoved := advance_of_leapSecond hleap hlow
    unfold IsLeapSecond at hleap
    simp only [toNanos, nanosPerSecond] at hleap hle hmoved
    rcases hmoved with hmoved | hmoved
    · rw [hmoved]
      simp only [ofNanos, nanosPerSecond]
      omega
    · omega
  · rw [since_eq hl hleap] at hhigh
    rw [advance, if_neg hleap]
    simp only [ofNanos, toNanos, nanosPerSecond] at *
    omega

theorem inCalendar_advance (hc : r.InCalendar) (hc' : stop.InCalendar) (hl : ¬ stop.IsLeapSecond)
    (hlow : 0 ≤ lapse) (hhigh : lapse ≤ stop.since r) : (r.advance lapse).InCalendar := by
  obtain ⟨hfirst, hlast⟩ := second_advance_between hl hlow hhigh
  rw [inCalendar_iff_second] at hc hc' ⊢
  omega

end Reading

namespace Zone

theorem nano_of_attach? {zone : Zone} {wall : Reading} {preferred : Option Int} {r : ZonedTime}
    (hn : wall.nano < 2000000000) (h : zone.attach? wall preferred = some r) :
    r.utc.nano < 2000000000 := by
  have hpushed (hp : zone.pushForward? wall = some r) : r.utc.nano < 2000000000 := by
    obtain ⟨dayBefore, -, hp⟩ := Option.bind_eq_some_iff.1 hp
    obtain ⟨-, rfl⟩ := ZonedTime.eq_of_covered? hp
    exact Reading.nano_advance_lt hn
  unfold attach? at h
  split at h
  · rcases Option.or_eq_some_iff.1 h with h | ⟨-, h⟩
    · obtain ⟨-, rfl⟩ := ZonedTime.eq_of_covered? h
      exact hn
    · exact hpushed h
  · split at h
    · obtain rfl := Option.some.inj h
      exact hn
    · exact hpushed h
  · exact hpushed h

end Zone

namespace ZonedTime

variable {t first final : ZonedTime} {unit : CalendarUnit}

theorem nano_of_floorTo? {letter : Letter} (hn : t.utc.nano < 2000000000)
    (h : t.floorTo? letter = some first) :
    first.utc.nano < 2000000000 := by
  rw [floorTo?_eq] at h
  by_cases hu : letter.field.floorUnit = .nanos
  · rw [hu] at h
    obtain rfl : t = first := Option.some.inj h
    exact hn
  · rw [floor?_eq t hu] at h
    obtain ⟨wall, hwall, h⟩ := Option.bind_eq_some_iff.1 h
    obtain ⟨date, -, rfl⟩ := Option.map_eq_some_iff.1 hwall
    exact Zone.nano_of_attach? (Nat.lt_of_le_of_lt (Reading.nano_flooredTime_le t.wall _) hn) h

theorem unitsUntil_lt (hu : unit ≠ .nanos) (hs : first.zone.WellSpaced) (hc : first.utc.InCalendar)
    (hc' : final.utc.InCalendar) (hn : final.utc.nano < 2000000000) :
    first.unitsUntil final unit < Count.greatest := by
  have hsince := Reading.since_lt hc hc' hn
  have hnear := wall_nearCalendar hs hc
  have hnear' := @wall_nearCalendar (final.inZone first.zone) hs hc'
  cases unit with
  | nanos => exact absurd rfl hu
  | millis | seconds | minutes | hours | halfDays => exact Count.tdiv_lt_greatest (by decide) hsince
  | days | weeks | months | quarters | years =>
    have hend := wholeDayEnd_le_succ first.wall (final.inZone first.zone).wall
    have hdays := hnear.epochDay_bounds
    have hdays' := hnear'.epochDay_bounds
    rw [unitsUntil_eq_date (by decide)]
    exact Date.unitsUntil_lt (by decide) (by omega) (by omega)
  | weekBasedYears =>
    have hyear := Date.weekYear_near first.wall.date
    have hyear' := Date.weekYear_near (final.inZone first.zone).wall.date
    unfold Date.NearCalendar Date.minYear Date.maxYear at hnear hnear'
    rw [unitsUntil]
    simp only [Count.greatest]
    omega
  | eras =>
    have hera := Date.era_eq first.wall.date
    have hera' := Date.era_eq (final.inZone first.zone).wall.date
    rw [unitsUntil]
    simp only [Count.greatest]
    omega

theorem plus?_nanos_ne_none {amount : Int} (hc : first.utc.InCalendar) (hc' : final.utc.InCalendar)
    (hl : ¬ final.utc.IsLeapSecond) (hlow : 0 ≤ amount)
    (hhigh : amount ≤ final.utc.since first.utc) :
    first.plus? amount .nanos ≠ none := by
  change first.advance? amount ≠ none
  rw [advance?, Zone.covered?_eq (Reading.inCalendar_advance hc hc' hl hlow hhigh)]
  exact Option.some_ne_none _

end ZonedTime

namespace NamePattern

variable {p : NamePattern} {start stop : ZonedTime}

theorem last_between_lt_iff (hz : start.zone.WellSpaced) (hc : start.utc.InCalendar)
    (hc' : stop.utc.InCalendar) (hn : stop.utc.nano < 2000000000) :
    (Listing.between p start stop).last < Count.greatest ↔
    ¬ (p.unit = .nanos ∧ Count.greatest ≤ stop.utc.since start.utc) := by
  by_cases hu : p.unit = .nanos
  · rw [between_of_nanos hu]
    simp only [hu, true_and, Count.clamp, Count.greatest, Count.least]
    omega
  · refine ⟨fun _ h ↦ hu h.1, fun _ ↦ ?_⟩
    cases hf : start.floorTo? p.lowest with
    | none =>
      rw [between_of_no_floor (.inl hf)]
      exact show (-1 : Int) < Count.greatest by decide
    | some first =>
      cases hf' : stop.floorTo? p.lowest with
      | none =>
        rw [between_of_no_floor (.inr hf')]
        exact show (-1 : Int) < Count.greatest by decide
      | some final =>
        obtain ⟨hzone, hfirst⟩ := ZonedTime.covered_of_floorTo? hc hf
        rw [between_of_floors hf hf']
        exact ZonedTime.unitsUntil_lt hu (hzone.symm ▸ hz) hfirst
          (ZonedTime.covered_of_floorTo? hc' hf').2
          (ZonedTime.nano_of_floorTo? hn hf')

theorem between_of_saturated (hu : p.unit = .nanos)
    (h : Count.greatest ≤ stop.utc.since start.utc) :
    Listing.between p start stop = ⟨p, start, 0, Count.greatest⟩ := by
  have hclamp : Count.clamp (stop.utc.since start.utc) = Count.greatest := by
    unfold Count.clamp Count.least Count.greatest at *
    omega
  rw [between_of_nanos hu, hclamp]

theorem not_announces_of_saturated (hc : start.utc.InCalendar) (hu : p.unit = .nanos)
    (h : Count.greatest ≤ stop.utc.since start.utc) :
    ¬ (Listing.between p start stop).Announces := by
  rw [between_of_saturated hu h]
  refine Listing.not_announces rfl rfl ?_
  rw [Listing.instant?, hu]
  change start.advance? 0 ≠ none
  rw [ZonedTime.advance?_zero hc]
  exact Option.some_ne_none _

/-- What a listing announces bounds the names still to come at each point of its run, unless
nanoseconds are listed over more of them than 64 bits count. Then none are announced at first, and
behind the first name as many as 64 bits count, from where the count goes down by one with each
name, for as long as 64 bits count the steps. -/
theorem announced_unless_saturated (hz : start.zone.WellSpaced) (hc : start.utc.InCalendar)
    (hc' : stop.utc.InCalendar) (hn : stop.utc.nano < 2000000000) :
    ((∀ count, ((Listing.between p start stop).after count).Announces) ↔
      ¬ (p.unit = .nanos ∧ Count.greatest ≤ stop.utc.since start.utc)) ∧
    (p.unit = .nanos → Count.greatest ≤ stop.utc.since start.utc → ¬ stop.utc.IsLeapSecond →
      ∀ count : Nat, count < Count.greatest →
        (∃ t, start.plus? count .nanos = some t ∧
          ((Listing.between p start stop).after count).step.1 = some (p.write t)) ∧
        (((Listing.between p start stop).after count).remaining : Int) =
          if count = 0 then 0 else Count.greatest - count + 1) := by
  refine ⟨⟨fun h hmany ↦ ?_, fun hfew count ↦ ?_⟩, fun hu hmany hl count hcount ↦ ?_⟩
  · exact not_announces_of_saturated hc hmany.1 hmany.2 (h 0)
  · have hnext : (Listing.between p start stop).next = 0 := rfl
    obtain ⟨hlast', hnext'⟩ :=
      Listing.after_bounds ((last_between_lt_iff hz hc hc' hn).2 hfew)
        (Int.le_of_eq hnext.symm) count
    exact Listing.announces hlast' hnext'
  · have hcovered (i : Nat) (hi : i ≤ count) : start.plus? (0 + i) p.unit ≠ none := by
      rw [hu]
      exact ZonedTime.plus?_nanos_ne_none hc hc' hl (by omega) (by omega)
    obtain ⟨t, ht⟩ := Option.ne_none_iff_exists'.1 (hcovered count (Nat.le_refl _))
    have hafter := @Listing.after_eq ⟨p, start, 0, Count.greatest⟩ count (by simp only; omega)
      fun i hi ↦ hcovered i (Nat.le_of_lt hi)
    have hstep := @Listing.step_of_some ⟨p, start, 0 + count, Count.greatest⟩ t
      (by simp only; omega) ht
    rw [between_of_saturated hu hmany, hafter, hstep]
    rw [hu, Int.zero_add] at ht
    refine ⟨⟨t, ht, rfl⟩, ?_⟩
    simp only [Listing.remaining]
    split <;> split <;> omega

def nanosOfDays : NamePattern := ⟨.nanoOfDay, .ofPattern "uuuu.DDD.N",
  ⟨"uuuu.DDD.N", [.number .year 4 10, .literal ['.'], .number .dayOfYear 3 3, .literal ['.'],
    .number .nanoOfDay 1 18]⟩⟩

theorem compile_nanosOfDays : compile "uuuu.DDD.N" = .ok nanosOfDays := by
  have hplaced : Letter.nanoOfDay.isPlacedBy (.ofPattern "uuuu.DDD.N") :=
    Letter.isPlacedBy_of_isChain [.dayOfYear, .year] (by decide) rfl
  exact compile_eq (by decide) hplaced (by decide)

theorem nanos_of_centuries_announced :
    let start : ZonedTime := ⟨.utc, .ofDate (.ofYmd 1600 1 1) 0 0⟩
    let stop : ZonedTime := ⟨.utc, .ofDate (.ofYmd 1970 1 1) 0 0⟩
    let l := Listing.between nanosOfDays start stop
    (¬ ∀ count, (l.after count).Announces) ∧ l.step.1 = some "1600.001.0" ∧
    (l.remaining : Int) = 0 ∧ (l.after 1).step.1 = some "1600.001.1" ∧
    ((l.after 1).remaining : Int) = Count.greatest := by
  intro start stop l
  have hmany : Count.greatest ≤ stop.utc.since start.utc := by decide
  obtain ⟨hannounced, hcounts⟩ :=
    @announced_unless_saturated nanosOfDays start stop Zone.utc_regular.wellSpaced
    (by decide) (by decide) (by decide)
  obtain ⟨⟨t, ht, hfirst⟩, hnone⟩ := hcounts rfl hmany (by decide) 0 (by decide)
  obtain ⟨⟨t', ht', hsecond⟩, hmost⟩ := hcounts rfl hmany (by decide) 1 (by decide)
  have hplus : start.plus? (0 : Nat) .nanos = some start := by decide
  have hplus' : start.plus? (1 : Nat) .nanos = some ⟨.utc, .ofDate (.ofYmd 1600 1 1) 0 1⟩ := by
    decide
  have hname : nanosOfDays.write start = "1600.001.0" := by decide
  have hname' : nanosOfDays.write ⟨.utc, .ofDate (.ofYmd 1600 1 1) 0 1⟩ = "1600.001.1" := by decide
  rw [← Option.some.inj (hplus.symm.trans ht), hname] at hfirst
  rw [← Option.some.inj (hplus'.symm.trans ht'), hname'] at hsecond
  exact ⟨fun hall ↦ hannounced.1 hall ⟨rfl, hmany⟩, hfirst, hnone, hsecond, hmost⟩

/-- What a listing announces does not always bound the names still to come. -/
theorem not_always_announced :
    ¬ ∀ (pattern : String) (p : NamePattern) (start stop : ZonedTime),
    compile pattern = .ok p → start.zone ∈ Zone.table → stop.zone ∈ Zone.table →
    start.utc.InCalendar → stop.utc.InCalendar → ¬ start.utc.IsLeapSecond →
    ¬ stop.utc.IsLeapSecond → ∀ count, ((Listing.between p start stop).after count).Announces := by
  intro h
  refine not_announces_of_saturated ?_ ?_ ?_ (h _ nanosOfDays ⟨.utc, .ofDate (.ofYmd 1600 1 1) 0 0⟩
    ⟨.utc, .ofDate (.ofYmd 1970 1 1) 0 0⟩ compile_nanosOfDays (by simp [Zone.table])
    (by simp [Zone.table]) (by decide)
    (by decide) (by decide) (by decide) 0)
  · decide
  · rfl
  · decide

end NamePattern

end Almanac
