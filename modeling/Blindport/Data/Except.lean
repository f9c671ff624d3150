import Mathlib.Init

/-!
# Blindport.Data.Except

Steps that can fail, one after another.

`Except.bind_eq_ok` takes a run of two steps apart: what succeeds has succeeded in each.
-/

namespace Except

variable {ε α β : Type}

/-- A run that returns has passed its first step. -/
theorem bind_eq_ok {x : Except ε α} {f : α → Except ε β} {b : β} (h : x >>= f = .ok b) :
    ∃ a, x = .ok a ∧ f a = .ok b := by
  cases x with
  | error e => contradiction
  | ok a => exact ⟨a, rfl, h⟩

end Except
