import Mathlib.Logic.Basic

/-!
# Computations that may fail

Inversion of `Except` computations: a bind succeeds when both of its parts do.  Proofs take a
computation apart with these rules instead of unfolding it.
-/

namespace Except

variable {ε α β : Type}

theorem bind_eq_ok {x : Except ε α} {f : α → Except ε β} {b : β} :
    x >>= f = .ok b ↔ ∃ a, x = .ok a ∧ f a = .ok b := by
  cases x with
  | error e => simp [bind, Except.bind]
  | ok a => simp [bind, Except.bind]

theorem pure_eq_ok {a b : α} : (Pure.pure a : Except ε α) = .ok b ↔ a = b := by
  simp [Pure.pure, Except.pure]

theorem ok_of_mapError {ε' : Type} {x : Except ε α} {f : ε → ε'} {a : α}
    (h : x.mapError f = .ok a) :
    x = .ok a := by
  cases x with
  | error e => cases h
  | ok b => rw [Except.ok.inj h]

theorem exists_of_isSome {x : Except ε α} (h : x.toOption.isSome = true) : ∃ a, x = .ok a := by
  cases x with
  | error e => cases h
  | ok a => exact ⟨a, rfl⟩

end Except
