import Almanac.Proofs.MathStep.Grammar
import Almanac.Zone.Table

namespace Almanac.MathStep

variable {suffix more : String} {text rest front : List Char} {steps : List MathStep}
  {fault : MathFault} {t : ZonedTime}

def run? (steps : List MathStep) (t : ZonedTime) : Option ZonedTime :=
  steps.foldlM (fun t step ↦ step.applyTo? t) t

@[simp] theorem run?_cons (step : MathStep) (steps : List MathStep) (t : ZonedTime) :
    run? (step :: steps) t = (step.applyTo? t).bind (run? steps) := by
  rw [run?, List.foldlM_cons]
  rfl

theorem applyRow_map_ok_append (steps : List MathStep) (row : List (Except MathFault MathStep))
    (t : ZonedTime) :
    applyRow (steps.map .ok ++ row) t =
      match run? steps t with
      | some next => applyRow row next
      | none => .error .outOfRange := by
  induction steps generalizing t with
  | nil => rfl
  | cons step steps ih =>
    rw [List.map_cons, List.cons_append, applyRow, run?_cons]
    cases hstep : step.applyTo? t with
    | none => rfl
    | some next => exact ih next

theorem applyAll_words (h : Words suffix.toList steps) (t : ZonedTime) :
    applyAll suffix t =
      match run? steps t with
      | some next => .ok next
      | none => .error ⟨suffix, .outOfRange⟩ := by
  have hrow := readAll_words_append h []
  rw [List.append_nil] at hrow
  rw [applyAll, hrow, applyRow_map_ok_append]
  cases run? steps t <;> simp [readAll, applyRow, Except.mapError]

end Almanac.MathStep
