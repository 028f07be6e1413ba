import Almanac.Count
import Almanac.FieldValues

namespace Almanac

theorem exists_of_bind_eq_ok {α β ε : Type} {x : Except ε α} {f : α → Except ε β} {b : β}
    (h : x >>= f = .ok b) :
    ∃ a, x = .ok a ∧ f a = .ok b := by
  cases x with
  | error e => cases h
  | ok a => exact ⟨a, rfl, h⟩

/-- A computation that ends with a result or an error, or breaks down. -/
abbrev Checked (α : Type) := ExceptT ParseError Option α

namespace Checked

variable {α β : Type}

def breakdown : Checked α := ExceptT.mk none

def ensure (condition : Prop) [Decidable condition] (a : α) : Checked α :=
  if condition then pure a else breakdown

def int64 (n : Int) : Checked Int := ensure (Count.least ≤ n ∧ n ≤ Count.greatest) n

def unsigned32 (n : Int) : Checked Int := ensure (0 ≤ n ∧ n ≤ 4294967295) n

def attempt (x : Checked α) : Checked (Option α) := ExceptT.mk (x.run.map fun y ↦ .ok y.toOption)

/-- The computation does not break down and ends in this way. -/
def Gives (x : Checked α) (y : Except ParseError α) : Prop := x.run = some y

variable {x : Checked α} {y : Except ParseError α}

@[simp] theorem gives_pure (a : α) : (pure a : Checked α).Gives (.ok a) := rfl

@[simp] theorem gives_throw (e : ParseError) : (throw e : Checked α).Gives (.error e) := rfl

@[simp] theorem gives_lift (y : Except ParseError α) : (liftM y : Checked α).Gives y := rfl

theorem gives_ensure {condition : Prop} [Decidable condition] (h : condition) (a : α) :
    (ensure condition a).Gives (.ok a) := by
  rw [ensure, if_pos h]
  exact gives_pure a

theorem gives_int64 {n : Int} (hl : -9223372036854775808 ≤ n) (hg : n ≤ 9223372036854775807) :
    (int64 n).Gives (.ok n) :=
  gives_ensure ⟨hl, hg⟩ n

example : (int64 (1 - Count.least)).run = none := by decide

theorem gives_unsigned32 {n : Int} (hl : 0 ≤ n) (hg : n ≤ 4294967295) :
    (unsigned32 n).Gives (.ok n) :=
  gives_ensure ⟨hl, hg⟩ n

theorem Gives.bind {f : α → Checked β} {g : α → Except ParseError β} (h : x.Gives y)
    (hf : ∀ a, y = .ok a → (f a).Gives (g a)) : (x >>= f).Gives (y >>= g) := by
  rw [Gives] at h ⊢
  rw [ExceptT.run_bind, h]
  cases y with
  | error e => rfl
  | ok a => exact hf a rfl

theorem Gives.bind_ok {f : α → Checked β} {z : Except ParseError β} {a : α} (h : x.Gives (.ok a))
    (hf : (f a).Gives z) : (x >>= f).Gives z := by
  have hbind := h.bind (g := fun _ ↦ z) fun b hb ↦ by
    obtain rfl := Except.ok.inj hb
    exact hf
  exact hbind

theorem Gives.bind_error {f : α → Checked β} {e : ParseError} (h : x.Gives (.error e)) :
    (x >>= f).Gives (.error e) := by
  rw [Gives] at h ⊢
  rw [ExceptT.run_bind, h]
  rfl

theorem Gives.attempt (h : x.Gives y) : x.attempt.Gives (.ok y.toOption) := by
  rw [Gives] at h ⊢
  rw [Checked.attempt, ExceptT.run_mk, h]
  rfl

end Checked

end Almanac
