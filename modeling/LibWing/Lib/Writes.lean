import Mathlib.Data.List.Nodup

/-!
# Writes in order

A store takes writes of values to keys, one after the other, and the last write to a key wins.

* `apply` : the store after some writes;
* `last` : the last value written to a key;
* `apply_eq` : a key holds the last value written to it, or what it held before.
-/

namespace Writes

variable {α β : Type} [DecidableEq α]

/-- The store after some writes. -/
def apply (store : α → Option β) (writes : List (α × β)) : α → Option β :=
  writes.foldl (fun store w => Function.update store w.1 (some w.2)) store

/-- The last value written to a key. -/
def last : List (α × β) → α → Option β
  | [], _ => none
  | (key, value) :: writes, k => (last writes k).or (if key = k then some value else none)

variable {writes : List (α × β)} {k : α} {v : β}

theorem apply_eq (store : α → Option β) (writes : List (α × β)) (k : α) :
    apply store writes k = (last writes k).or (store k) := by
  induction writes generalizing store with
  | nil => rfl
  | cons w writes ih =>
    obtain ⟨key, value⟩ := w
    have hstore := ih (Function.update store key (some value))
    change apply _ writes k = _
    rw [hstore, last, Option.or_assoc]
    congr 1
    by_cases hk : key = k
    · subst hk
      rw [Function.update_self, if_pos rfl, Option.some_or]
    · rw [Function.update_of_ne (Ne.symm hk), if_neg hk, Option.none_or]

/-- The last value of two runs of writes is the one of the second run, if it has one. -/
theorem last_append (writes writes' : List (α × β)) (k : α) :
    last (writes ++ writes') k = (last writes' k).or (last writes k) := by
  induction writes with
  | nil => rw [List.nil_append, last, Option.or_none]
  | cons w writes ih =>
    obtain ⟨key, value⟩ := w
    rw [List.cons_append, last, last, ih, Option.or_assoc]

/-- A key that is written has a last value. -/
theorem last_isSome (h : (k, v) ∈ writes) : (last writes k).isSome = true := by
  induction writes with
  | nil => cases h
  | cons w writes ih =>
    obtain ⟨key, value⟩ := w
    rw [last, Option.isSome_or]
    rcases List.mem_cons.1 h with heq | hmem
    · cases heq
      rw [if_pos rfl, Option.isSome_some, Bool.or_true]
    · rw [ih hmem, Bool.true_or]

/-- A key that is written holds the last value written to it. -/
theorem apply_of_mem (store : α → Option β) (h : (k, v) ∈ writes) :
    apply store writes k = last writes k := by
  obtain ⟨v', hv⟩ := Option.isSome_iff_exists.1 (last_isSome h)
  rw [apply_eq, hv, Option.some_or]

end Writes
