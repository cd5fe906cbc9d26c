import Mathlib.Data.List.Basic

/-!
# Scanning for tokens

Going through positions from the left.  At a position there may be a token, which may be a finding;
after a token the scan goes on at its end, otherwise at the next position.

* `scanFrom` : the findings, at most `fuel` positions or tokens on;
* `token_of_mem` : a finding is a token;
* `mem_of_token` : a token with a finding is found, if no token before it reaches over its start.
-/

namespace Scan

variable {α : Type} {token : ℕ → Option (ℕ × Option α)} {fuel i start stop : ℕ} {a : α}

/-- The findings from position `i` on, with where they start and end. -/
def scanFrom (token : ℕ → Option (ℕ × Option α)) : ℕ → ℕ → List (ℕ × ℕ × α)
  | 0, _ => []
  | fuel + 1, i =>
    match token i with
    | none => scanFrom token fuel (i + 1)
    | some (stop, found) =>
      (found.map fun a => (i, stop, a)).toList ++ scanFrom token fuel (max stop (i + 1))

theorem scanFrom_none (h : token i = none) :
    scanFrom token (fuel + 1) i = scanFrom token fuel (i + 1) := by
  rw [scanFrom, h]

theorem scanFrom_some {found : Option α} (h : token i = some (stop, found)) :
    scanFrom token (fuel + 1) i =
      (found.map fun a => (i, stop, a)).toList ++ scanFrom token fuel (max stop (i + 1)) := by
  rw [scanFrom, h]

/-- A finding is a token. -/
theorem token_of_mem (h : (start, stop, a) ∈ scanFrom token fuel i) :
    token start = some (stop, some a) := by
  induction fuel generalizing i with
  | zero => cases h
  | succ fuel ih =>
    rcases htoken : token i with _ | ⟨stop', found⟩
    · rw [scanFrom_none htoken] at h
      exact ih h
    · rw [scanFrom_some htoken] at h
      rcases List.mem_append.1 h with h | h
      · obtain ⟨b, rfl, hb⟩ := Option.map_eq_some_iff.1 (Option.mem_toList.1 h)
        cases hb
        exact htoken
      · exact ih h

/-- A token with a finding is found, if no token before it reaches over its start. -/
theorem mem_of_token (hi : i ≤ start) (hfuel : start < i + fuel)
    (hbefore : ∀ k, i ≤ k → k < start → ∀ stop' found, token k = some (stop', found) →
      stop' ≤ start)
    (h : token start = some (stop, some a)) : (start, stop, a) ∈ scanFrom token fuel i := by
  induction fuel generalizing i with
  | zero => omega
  | succ fuel ih =>
    by_cases his : i = start
    · subst his
      rw [scanFrom_some h]
      exact List.mem_append_left _ (by simp)
    · rcases htoken : token i with _ | ⟨stop', found⟩
      · rw [scanFrom_none htoken]
        exact ih (by omega) (by omega) fun k hk => hbefore k (by omega)
      · have hstop := hbefore i (Nat.le_refl i) (by omega) stop' found htoken
        rw [scanFrom_some htoken]
        exact List.mem_append_right _
          (ih (by omega) (by omega) fun k hk => hbefore k (by omega))

end Scan
