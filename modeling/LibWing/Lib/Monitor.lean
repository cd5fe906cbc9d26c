import Mathlib.Data.List.Basic

/-!
# Lawful runs

What a run has done is a list of moments, and a law says which moments are allowed behind which.

* `Lawful Allowed ms` : every moment of `ms` is allowed behind those before it;
* `lawful_concat` : the rule for a run that goes on moment by moment.
-/

namespace Monitor

variable {μ : Type} {Allowed : List μ → μ → Prop}

/-- Every moment is allowed behind those before it. -/
def Lawful (Allowed : List μ → μ → Prop) (ms : List μ) : Prop :=
  ∀ before m after, ms = before ++ m :: after → Allowed before m

theorem lawful_concat {ms : List μ} {m : μ} :
    Lawful Allowed (ms ++ [m]) ↔ Lawful Allowed ms ∧ Allowed ms m := by
  constructor
  · intro h
    refine ⟨fun before m' after heq => h before m' (after ++ [m]) ?_, h ms m [] rfl⟩
    rw [heq, List.append_assoc, List.cons_append]
  · rintro ⟨hms, hm⟩ before m' after heq
    -- The last moment is the new one.
    rcases List.eq_nil_or_concat after with rfl | ⟨after, last, rfl⟩
    · obtain ⟨rfl, hlast⟩ := List.append_inj' heq rfl
      cases hlast
      exact hm
    · rw [List.concat_eq_append, ← List.cons_append, ← List.append_assoc] at heq
      obtain ⟨rfl, -⟩ := List.append_inj' heq rfl
      exact hms before m' after rfl

end Monitor
