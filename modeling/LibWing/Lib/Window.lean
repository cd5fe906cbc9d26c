import Mathlib.Data.List.Basic

/-!
# The newest elements

A buffer with room for `cap` elements drops its oldest element when a new one finds no room.

* `newest` : the last `cap` elements of a list;
* `push` : the buffer after one more element;
* `push_newest` : so the buffer holds the newest elements of all that were put into it.
-/

namespace Window

variable {α : Type}

/-- The last elements of a list, at most `cap` of them. -/
def newest (cap : ℕ) (l : List α) : List α := l.drop (l.length - cap)

/-- A buffer after one more element: if it is full, the oldest one goes. -/
def push (cap : ℕ) (buf : List α) (a : α) : List α :=
  if cap ≤ buf.length then buf.drop 1 ++ [a] else buf ++ [a]

variable {cap : ℕ} {l : List α} {a : α}

theorem length_newest (cap : ℕ) (l : List α) : (newest cap l).length = min cap l.length := by
  rw [newest, List.length_drop]
  omega

@[simp] theorem newest_nil (cap : ℕ) : newest cap ([] : List α) = [] := List.drop_nil

/-- The buffer is full once as many elements were put into it. -/
theorem full_iff : cap ≤ (newest cap l).length ↔ cap ≤ l.length := by
  rw [length_newest]
  omega

theorem push_newest (hcap : 0 < cap) : push cap (newest cap l) a = newest cap (l ++ [a]) := by
  have hroom : l.length + 1 - cap ≤ l.length := by omega
  have hnext : newest cap (l ++ [a]) = l.drop (l.length + 1 - cap) ++ [a] := by
    rw [newest, List.length_append, List.length_singleton, List.drop_append_of_le_length hroom]
  rw [push, hnext]
  by_cases hfull : cap ≤ l.length
  · rw [if_pos (full_iff.mpr hfull), newest, List.drop_drop]
    congr 2
    omega
  · rw [if_neg (mt full_iff.mp hfull), newest, Nat.sub_eq_zero_of_le (by omega),
      Nat.sub_eq_zero_of_le (by omega)]

end Window
