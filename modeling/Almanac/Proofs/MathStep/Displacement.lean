import Almanac.Proofs.MathStep.Evaluation
import Almanac.Proofs.ZonedTime.Period

namespace Almanac

def ZonedTime.displaced (t : ZonedTime) (seconds : Int) : ZonedTime := ⟨t.zone, t.utc.shift seconds⟩

@[simp] theorem ZonedTime.displaced_zero (t : ZonedTime) : t.displaced 0 = t := by
  simp [displaced]

@[simp] theorem ZonedTime.displaced_displaced (t : ZonedTime) (a b : Int) :
    (t.displaced a).displaced b = t.displaced (a + b) :=
  congrArg (ZonedTime.mk t.zone) (Reading.shift_shift t.utc a b)

namespace MathStep

variable {step : MathStep} {steps steps' : List MathStep} {suffix more : String} {zone : Zone}
  {t r : ZonedTime}

/-- The step adds a unit that has one length in the zone. -/
def Displaces (zone : Zone) (step : MathStep) : Prop :=
  step.round = false ∧
    (step.unit ∈ [.hours, .minutes, .seconds] ∨ zone = .utc ∧ step.unit ∈ [.days, .weeks])

instance (zone : Zone) (step : MathStep) : Decidable (step.Displaces zone) :=
  inferInstanceAs (Decidable (_ ∧ (_ ∨ _ ∧ _)))

def seconds (step : MathStep) : Int := step.sign * step.magnitude * step.unit.seconds?.getD 0

def displacement : List MathStep → Int
  | [] => 0
  | step :: steps => step.seconds + displacement steps

def opposite (step : MathStep) : MathStep := { step with sign := -step.sign }

/-- Displaced step by step, the instant stays in the calendar, and has a local time wherever a step
is still to be taken. -/
def Runs : ZonedTime → List MathStep → Prop
  | t, [] => t.utc.InCalendar
  | t, step :: steps =>
    (t.utc.InCalendar ∧ t.wall.InCalendar) ∧ Runs (t.displaced step.seconds) steps

instance decidableRuns : (t : ZonedTime) → (steps : List MathStep) → Decidable (Runs t steps)
  | t, [] => inferInstanceAs (Decidable t.utc.InCalendar)
  | t, step :: steps =>
    have := decidableRuns (t.displaced step.seconds) steps
    inferInstanceAs (Decidable ((_ ∧ _) ∧ _))

theorem Runs.inCalendar (h : Runs t steps) : t.utc.InCalendar := by
  cases steps with
  | nil => exact h
  | cons step steps => exact h.1.1

@[simp] theorem displacement_cons (step : MathStep) (steps : List MathStep) :
    displacement (step :: steps) = step.seconds + displacement steps := rfl

@[simp] theorem displacement_append (steps steps' : List MathStep) :
    displacement (steps ++ steps') = displacement steps + displacement steps' := by
  induction steps with
  | nil => exact (Int.zero_add _).symm
  | cons step steps ih =>
    simp [ih, Int.add_assoc]

theorem displacement_eq_of_perm (h : steps'.Perm steps) :
    displacement steps' = displacement steps := by
  induction h with
  | nil => rfl
  | cons step _ ih => simp [ih]
  | swap step other steps =>
    simp only [displacement_cons]
    omega
  | trans _ _ ih ih' => rw [ih, ih']

@[simp] theorem seconds_opposite (step : MathStep) : step.opposite.seconds = -step.seconds := by
  rw [seconds, seconds, opposite, Int.neg_mul, Int.neg_mul]

@[simp] theorem displacement_opposite (steps : List MathStep) :
    displacement (steps.map opposite) = -displacement steps := by
  induction steps with
  | nil => rfl
  | cons step steps ih =>
    rw [List.map_cons, displacement_cons, displacement_cons, ih, seconds_opposite]
    omega

theorem displaced_opposite (t : ZonedTime) (h : steps'.Perm (steps.map opposite)) :
    (t.displaced (displacement steps)).displaced (displacement steps') = t := by
  rw [displacement_eq_of_perm h, displacement_opposite, ZonedTime.displaced_displaced,
    Int.add_right_neg, ZonedTime.displaced_zero]

theorem Displaces.opposite (h : step.Displaces zone) : step.opposite.Displaces zone := h

theorem Displaces.of_perm_opposite (h : ∀ step ∈ steps, step.Displaces zone)
    (hperm : steps'.Perm (steps.map MathStep.opposite)) : ∀ step ∈ steps', step.Displaces zone := by
  intro step hstep
  obtain ⟨forth, hforth, rfl⟩ := List.mem_map.1 (hperm.mem_iff.1 hstep)
  exact (h forth hforth).opposite

theorem applyTo?_of_displaces (h : step.Displaces t.zone) (hl : ¬ t.utc.IsLeapSecond) :
    step.applyTo? t = ZonedTime.covered? t.zone (t.utc.shift step.seconds) := by
  obtain ⟨sign, round, magnitude, unit⟩ := step
  obtain ⟨rfl, hunit⟩ := h
  change t.plus? (sign * magnitude) unit =
    ZonedTime.covered? t.zone (t.utc.shift (sign * magnitude * unit.seconds?.getD 0))
  have helapsed (length : Int) : t.advance? (sign * magnitude * (length * Reading.nanosPerSecond)) =
      ZonedTime.covered? t.zone (t.utc.shift (sign * magnitude * length)) := by
    rw [ZonedTime.advance?, ← Int.mul_assoc, Reading.advance_seconds hl]
  simp only [List.mem_cons, List.not_mem_nil, or_false] at hunit
  rcases hunit with (rfl | rfl | rfl) | ⟨hz, hu⟩
  · exact helapsed 3600
  · exact helapsed 60
  · have hsecond := helapsed 1
    rwa [Int.one_mul] at hsecond
  · obtain ⟨zone, reading⟩ := t
    obtain rfl : zone = .utc := hz
    obtain ⟨length, hlength⟩ : ∃ length, unit.seconds? = some length := by
      rcases hu with rfl | rfl <;> exact ⟨_, rfl⟩
    rw [ZonedTime.utc_plus?_seconds hl hlength, hlength, Int.mul_comm length]
    rfl

/-- What is asked and what is reached on the way of a row of steps that displace. -/
theorem asked_and_run?_iff (hs : ∀ step ∈ steps, step.Displaces t.zone) (hc : t.utc.InCalendar)
    (hl : ¬ t.utc.IsLeapSecond) :
    (∀ s ∈ asked (steps.map .ok) t, s.wall.InCalendar) ∧ run? steps t = some r ↔
      Runs t steps ∧ r = t.displaced (displacement steps) := by
  induction steps generalizing t with
  | nil =>
    rw [displacement, ZonedTime.displaced_zero]
    exact ⟨fun h ↦ ⟨hc, (Option.some.inj h.2).symm⟩, fun h ↦ ⟨nofun, congrArg some h.2.symm⟩⟩
  | cons step steps ih =>
    have hsteps : ∀ other ∈ steps, other.Displaces t.zone :=
      fun other ho ↦ hs other (List.mem_cons_of_mem _ ho)
    have hstep := applyTo?_of_displaces (hs step List.mem_cons_self) hl
    by_cases hnext : (t.utc.shift step.seconds).InCalendar
    · rw [Zone.covered?_eq hnext] at hstep
      have hrest := ih (t := t.displaced step.seconds) hsteps hnext hl
      rw [ZonedTime.displaced_displaced] at hrest
      rw [run?_cons, hstep, List.map_cons, asked, hstep, List.forall_mem_cons, and_assoc, Runs,
        and_iff_right hc, and_assoc]
      exact and_congr_right fun _ ↦ hrest
    · rw [ZonedTime.covered?, Reading.covered?, if_neg hnext] at hstep
      rw [run?_cons, hstep]
      exact iff_of_false (fun h ↦ Option.some_ne_none _ h.2.symm) fun h ↦ hnext h.1.2.inCalendar

theorem applyAll_eq_ok_iff (h : parse suffix = .ok steps) :
    applyAll suffix t = .ok r ↔ run? steps t = some r := by
  rw [applyAll_words (parse_eq_ok_iff.1 h)]
  cases run? steps t <;> simp

theorem evaluates_iff (hp : parse suffix = .ok steps) (hs : ∀ step ∈ steps, step.Displaces t.zone)
    (hc : t.utc.InCalendar) (hl : ¬ t.utc.IsLeapSecond) :
    applyAllChecked suffix t = .ok (.ok r) ↔
      Runs t steps ∧ r = t.displaced (displacement steps) := by
  have hrow := readAll_words_append (parse_eq_ok_iff.1 hp) []
  rw [List.append_nil, readAll, List.append_nil] at hrow
  simp [applyAllChecked, applyAll_eq_ok_iff hp, hrow, asked_and_run?_iff hs hc hl]

theorem runs_append :
    Runs t (steps ++ steps') ↔ Runs t steps ∧ Runs (t.displaced (displacement steps)) steps' := by
  induction steps generalizing t with
  | nil =>
    rw [displacement, ZonedTime.displaced_zero]
    exact (and_iff_right_of_imp Runs.inCalendar).symm
  | cons step steps ih =>
    simpa [Runs, ih] using and_assoc.symm

/-- The opposite steps in reverse order pass through the same instants, and the first of them starts
where no step was taken before. -/
theorem runs_reverse (h : Runs t steps) :
    Runs (t.displaced (displacement steps)) (steps.map opposite).reverse ↔
      steps = [] ∨ (t.displaced (displacement steps)).wall.InCalendar := by
  induction steps generalizing t with
  | nil => exact iff_of_true ((ZonedTime.displaced_zero t).symm ▸ h) (.inl rfl)
  | cons step steps ih =>
    obtain ⟨hstart, hrest⟩ := h
    -- The way back undoes the rest first, which leads to where the first step has led.
    have hback := displaced_opposite (t.displaced step.seconds)
      (List.reverse_perm (steps.map opposite))
    have hfirst : (t.displaced step.seconds).displaced step.opposite.seconds = t := by
      rw [seconds_opposite, ZonedTime.displaced_displaced, Int.add_right_neg,
        ZonedTime.displaced_zero]
    rw [displacement_cons, ← ZonedTime.displaced_displaced, List.map_cons, List.reverse_cons,
      runs_append, ih hrest, hback, Runs, hfirst, Runs, and_iff_left hstart.1,
      and_iff_right hrest.inCalendar, or_iff_right (List.cons_ne_nil _ _)]
    cases steps with
    | nil => rw [displacement, ZonedTime.displaced_zero, and_iff_right (.inl rfl)]
    | cons next steps => rw [and_iff_left hrest.1.2, or_iff_right (List.cons_ne_nil _ _)]

/-- A suffix of steps that only displace adds the sum of their seconds, in every zone alike and in
any order that runs. The opposite steps lead back to the anchor wherever they run; in reverse order
they do just if the instant that the suffix leads to has a local time. -/
theorem displaced_by_sum (hp : parse suffix = .ok steps)
    (hs : ∀ step ∈ steps, step.Displaces t.zone) (hc : t.utc.InCalendar) (hl : ¬ t.utc.IsLeapSecond)
    (h : applyAllChecked suffix t = .ok (.ok r)) :
    r = t.displaced (displacement steps) ∧
    (∀ zone, (∀ step ∈ steps, step.Displaces zone) → ∀ r',
      applyAllChecked suffix (t.inZone zone) = .ok (.ok r') ↔
        Runs (t.inZone zone) steps ∧ r' = r.inZone zone) ∧
    (∀ other steps', parse other = .ok steps' → steps'.Perm steps → ∀ r',
      applyAllChecked other t = .ok (.ok r') ↔ Runs t steps' ∧ r' = r) ∧
    (∀ back steps', parse back = .ok steps' → steps'.Perm (steps.map opposite) → ∀ t',
      applyAllChecked (suffix ++ back) t = .ok (.ok t') ↔ Runs r steps' ∧ t' = t) ∧
    (∀ back, parse back = .ok (steps.map opposite).reverse →
      (applyAllChecked (suffix ++ back) t = .ok (.ok t) ↔ steps = [] ∨ r.wall.InCalendar)) ∧
    (t.zone = .utc → r.wall.InCalendar) := by
  obtain ⟨hruns, rfl⟩ := (evaluates_iff hp hs hc hl).1 h
  have hreached : (t.displaced (displacement steps)).utc.InCalendar :=
    ((@runs_append steps [] t).1 ((List.append_nil steps).symm ▸ hruns)).2
  have hback {back : String} {steps' : List MathStep} (hparse : parse back = .ok steps')
      (hperm : steps'.Perm (steps.map opposite)) (t' : ZonedTime) :
      applyAllChecked (suffix ++ back) t = .ok (.ok t') ↔
        Runs (t.displaced (displacement steps)) steps' ∧ t' = t := by
    have hall : ∀ step ∈ steps ++ steps', step.Displaces t.zone :=
      List.forall_mem_append.2 ⟨hs, Displaces.of_perm_opposite hs hperm⟩
    simp [evaluates_iff (parse_append hp hparse) hall hc hl, runs_append, and_iff_right hruns,
      ← ZonedTime.displaced_displaced, displaced_opposite t hperm]
  refine ⟨rfl, fun zone hz r' ↦ ?_, fun other steps' hparse hperm r' ↦ ?_, ?_, fun back hparse ↦ ?_,
    fun hz ↦ ?_⟩
  · exact evaluates_iff (t := t.inZone zone) hp hz hc hl
  · rw [evaluates_iff hparse (fun step hstep ↦ hs step (hperm.mem_iff.1 hstep)) hc hl,
      displacement_eq_of_perm hperm]
  · exact fun back steps' hparse hperm t' ↦ hback hparse hperm t'
  · rw [hback hparse (List.reverse_perm _), and_iff_left rfl, runs_reverse hruns]
  · rw [ZonedTime.wall_eq_of_utc (show (t.displaced _).zone = .utc from hz)]
    exact hreached

/-- Half an hour before clocks go forward in Berlin, two hours and half an hour back add up to one
and a half, in Kolkata as well. In UTC a week and two days back add up to five days. -/
theorem displaced_across_gap :
    let t : ZonedTime := ⟨.europeBerlin, ⟨1711845000, 0⟩⟩
    let r := t.displaced 5400
    (applyAllChecked "+2h-30m" t = .ok (.ok r) ∧
      applyAllChecked "+2h-30m" (t.inZone .asiaKolkata) = .ok (.ok (r.inZone .asiaKolkata)) ∧
      applyAllChecked "-30m+2H" t = .ok (.ok r) ∧
      applyAllChecked "+2h-30m+30m-2h" t = .ok (.ok t)) ∧
    applyAllChecked "+w-2d" (t.inZone .utc) = .ok (.ok ((t.inZone .utc).displaced 432000)) ∧
      applyAllChecked "+w-2d+2d-1w" (t.inZone .utc) = .ok (.ok (t.inZone .utc)) := by
  intro t r
  have hp : parse "+2h-30m" = .ok [⟨1, false, 2, .hours⟩, ⟨-1, false, 30, .minutes⟩] := by
    decide +kernel
  have hr : applyAllChecked "+2h-30m" t = .ok (.ok r) := by decide +kernel
  have hother : parse "-30m+2H" = .ok [⟨-1, false, 30, .minutes⟩, ⟨1, false, 2, .hours⟩] := by
    decide +kernel
  have hback : parse "+30m-2h" = .ok [⟨1, false, 30, .minutes⟩, ⟨-1, false, 2, .hours⟩] := by
    decide +kernel
  obtain ⟨-, hzone, horder, -, hreturn, -⟩ :=
    displaced_by_sum hp (by decide) (by decide) (by decide) hr
  have hp' : parse "+w-2d" = .ok [⟨1, false, 1, .weeks⟩, ⟨-1, false, 2, .days⟩] := by decide +kernel
  have hr' : applyAllChecked "+w-2d" (t.inZone .utc) =
      .ok (.ok ((t.inZone .utc).displaced 432000)) := by decide +kernel
  have hback' : parse "+2d-1w" = .ok [⟨1, false, 2, .days⟩, ⟨-1, false, 1, .weeks⟩] := by
    decide +kernel
  obtain ⟨-, -, -, -, hreturn', hutc⟩ :=
    displaced_by_sum hp' (by decide) (by decide) (by decide) hr'
  exact ⟨⟨hr, (hzone _ (by decide) _).2 ⟨by decide, rfl⟩,
    (horder _ _ hother (List.Perm.swap ..) _).2 ⟨by decide, rfl⟩,
    (hreturn _ hback).2 (.inr (by decide))⟩, hr', (hreturn' _ hback').2 (.inr (hutc rfl))⟩

/-- Six hours lead to an instant that has no local time in Tokyo, and no step leads back from
there. -/
theorem displaced_not_always_back :
    let t : ZonedTime := ⟨.asiaTokyo, ⟨8210266826400, 0⟩⟩
    let r : ZonedTime := ⟨.asiaTokyo, ⟨8210266848000, 0⟩⟩
    parse "+6h" = .ok [⟨1, false, 6, .hours⟩] ∧ parse "-6h" = .ok [⟨-1, false, 6, .hours⟩] ∧
      t.utc.InCalendar ∧ ¬ t.utc.IsLeapSecond ∧ applyAllChecked "+6h" t = .ok (.ok r) ∧
      applyAllChecked ("+6h" ++ "-6h") t = .error ⟨r⟩ := by decide +kernel

end MathStep

end Almanac
