import Mathlib.Data.List.Basic

/-!
# Machines

A machine goes from state to state by inputs; an input may be impossible in a state.

* `run` : a run, which is possible if each of its steps is;
* `run_invariant` : what every step keeps, every run keeps;
* `run_count` : inputs that make a rank smaller, while no other makes it larger, are no more than
  the rank was.
-/

namespace Machine

variable {σ ι : Type} {step : σ → ι → Option σ} {s s' : σ} {is : List ι}

/-- The state behind some inputs, if each of them is possible. -/
def run (step : σ → ι → Option σ) : σ → List ι → Option σ
  | s, [] => some s
  | s, i :: is => (step s i).bind fun s' => run step s' is

@[simp] theorem run_nil (s : σ) : run step s [] = some s := rfl

theorem run_cons_eq_some {i : ι} :
    run step s (i :: is) = some s' ↔ ∃ s₁, step s i = some s₁ ∧ run step s₁ is = some s' :=
  Option.bind_eq_some_iff

/-- Every run keeps an invariant that every step keeps. -/
theorem run_invariant {I : σ → Prop} (hstep : ∀ s i s', I s → step s i = some s' → I s')
    (hrun : run step s is = some s') (h : I s) : I s' := by
  induction is generalizing s with
  | nil =>
    cases hrun
    exact h
  | cons i is ih =>
    obtain ⟨s₁, hs₁, hrest⟩ := run_cons_eq_some.1 hrun
    exact ih hrest (hstep s i s₁ h hs₁)

/-- Inputs of one kind are no more than a rank that each of them makes smaller and no other makes
larger. -/
theorem run_count {I : σ → Prop} (rank : σ → ℕ) (mine : ι → Bool)
    (hkeeps : ∀ s i s', I s → step s i = some s' → I s')
    (hmine : ∀ s i s', I s → step s i = some s' → mine i = true → rank s' < rank s)
    (hothers : ∀ s i s', I s → step s i = some s' → rank s' ≤ rank s)
    (hrun : run step s is = some s') (h : I s) : (is.filter mine).length + rank s' ≤ rank s := by
  induction is generalizing s with
  | nil =>
    cases hrun
    simp
  | cons i is ih =>
    obtain ⟨s₁, hs₁, hrest⟩ := run_cons_eq_some.1 hrun
    have hrank := ih hrest (hkeeps s i s₁ h hs₁)
    cases hi : mine i with
    | false =>
      have hle := hothers s i s₁ h hs₁
      simp only [List.filter_cons, hi, Bool.false_eq_true, if_false]
      omega
    | true =>
      have hlt := hmine s i s₁ h hs₁ hi
      simp only [List.filter_cons, hi, if_true, List.length_cons]
      omega

end Machine
