import Mathlib.Data.List.Basic
import Mathlib.Data.List.Induction
import Mathlib.Data.List.Nodup

/-!
# The first value of each key

Values are listed in the order in which they come, unless there is one with the same key already.

* `pushNew`, `keepFirst` : list one value, list some values;
* `keepFirst_nodup`, `keepFirst_sublist` : there is one value a key, and the order stays;
* `filter_keepFirst` : the values with keys of one kind, whatever else comes between them;
* `keepFirst_congr` : a coarser key that tells the same values apart lists the same ones.
-/

namespace KeepFirst

variable {α κ κ' : Type} [DecidableEq κ] [DecidableEq κ'] {key : α → κ} {a : α} {l results : List α}

/-- List a value behind the others, unless its key is there already. -/
def pushNew (key : α → κ) (results : List α) (a : α) : List α :=
  if results.any fun seen => key seen = key a then results else results ++ [a]

/-- The values with the keys that were not there before them. -/
def keepFirst (key : α → κ) (l : List α) : List α := l.foldl (pushNew key) []

@[simp] theorem keepFirst_nil : keepFirst key [] = [] := rfl

theorem keepFirst_concat : keepFirst key (l ++ [a]) = pushNew key (keepFirst key l) a := by
  simp [keepFirst]

theorem pushNew_of_mem (h : key a ∈ results.map key) : pushNew key results a = results := by
  rw [pushNew, if_pos (by simpa using h)]

theorem pushNew_of_notMem (h : key a ∉ results.map key) :
    pushNew key results a = results ++ [a] := by
  rw [pushNew, if_neg (by simpa using h)]

/-- No key is listed twice. -/
theorem keepFirst_nodup (key : α → κ) (l : List α) : ((keepFirst key l).map key).Nodup := by
  induction l using List.reverseRecOn with
  | nil => simp
  | append_singleton l a ih =>
    rw [keepFirst_concat]
    by_cases h : key a ∈ (keepFirst key l).map key
    · rwa [pushNew_of_mem h]
    · rw [pushNew_of_notMem h, List.map_append, List.map_singleton]
      exact List.nodup_append.2 ⟨ih, List.nodup_singleton _, fun k hk b hb heq => by
        rw [List.mem_singleton] at hb
        exact h (hb ▸ heq ▸ hk)⟩

/-- What is listed came in this order. -/
theorem keepFirst_sublist (key : α → κ) (l : List α) : (keepFirst key l).Sublist l := by
  induction l using List.reverseRecOn with
  | nil => simp
  | append_singleton l a ih =>
    rw [keepFirst_concat]
    by_cases h : key a ∈ (keepFirst key l).map key
    · rw [pushNew_of_mem h]
      exact ih.trans (List.sublist_append_left _ _)
    · rw [pushNew_of_notMem h]
      exact ih.append (List.Sublist.refl _)

/-- The values whose keys are of a kind are listed as if no others came. -/
theorem filter_keepFirst (key : α → κ) (p : κ → Bool) (l : List α) :
    ((keepFirst key l).filter fun a => p (key a)) =
      keepFirst key (l.filter fun a => p (key a)) := by
  induction l using List.reverseRecOn with
  | nil => rfl
  | append_singleton l a ih =>
    rw [keepFirst_concat, List.filter_append, List.filter_singleton]
    cases hp : p (key a) with
    | false =>
      -- A value of another kind is filtered out, listed or not.
      simp only [cond_false, List.append_nil]
      rw [← ih]
      by_cases h : key a ∈ (keepFirst key l).map key
      · rw [pushNew_of_mem h]
      · rw [pushNew_of_notMem h, List.filter_append]
        simp [hp]
    | true =>
      simp only [cond_true]
      rw [keepFirst_concat, ← ih]
      -- Its key is of the kind, so that the filter does not hide that it was there.
      have hiff : key a ∈ ((keepFirst key l).filter fun a => p (key a)).map key ↔
          key a ∈ (keepFirst key l).map key := by
        constructor
        · intro h
          obtain ⟨b, hb, hkey⟩ := List.mem_map.1 h
          exact List.mem_map.2 ⟨b, List.mem_of_mem_filter hb, hkey⟩
        · intro h
          obtain ⟨b, hb, hkey⟩ := List.mem_map.1 h
          exact List.mem_map.2 ⟨b, List.mem_filter.2 ⟨hb, by rw [hkey]; exact hp⟩, hkey⟩
      by_cases h : key a ∈ (keepFirst key l).map key
      · rw [pushNew_of_mem h, pushNew_of_mem (hiff.2 h)]
      · rw [pushNew_of_notMem h, pushNew_of_notMem (mt hiff.1 h), List.filter_append]
        simp [hp]

/-- Two keys that tell the same values apart list the same ones. -/
theorem keepFirst_congr {key' : α → κ'} (h : ∀ a ∈ l, ∀ b ∈ l, key a = key b ↔ key' a = key' b) :
    keepFirst key l = keepFirst key' l := by
  induction l using List.reverseRecOn with
  | nil => rfl
  | append_singleton l a ih =>
    have hbefore : ∀ b ∈ l, b ∈ l ++ [a] := fun b hb => List.mem_append_left _ hb
    have hany : ((keepFirst key' l).any fun seen => key seen = key a) =
        (keepFirst key' l).any fun seen => key' seen = key' a := by
      rw [Bool.eq_iff_iff, List.any_eq_true, List.any_eq_true]
      refine exists_congr fun seen => and_congr_right fun hseen => ?_
      have hmem := hbefore seen ((keepFirst_sublist key' l).subset hseen)
      simp [h seen hmem a (by simp)]
    rw [keepFirst_concat, keepFirst_concat, ih fun b hb c hc => h b (hbefore b hb) c (hbefore c hc),
      pushNew, pushNew, hany]

end KeepFirst
