import Mathlib.Data.List.Basic

/-!
# Runs

The longest stretches of positions with a property, and the kind of the element at a position.

* `Run` : a stretch that goes on to neither side; `Run.contains` : what meets it is part of it, so
  that two runs that meet are one (`Run.eq_of_mem`);
* `On` : the element at a position of a list is of a kind; `length_takeWhile_eq_iff` : how far a
  kind reaches from the front.
-/

namespace Runs

variable {P : ℕ → Prop} {s e s' e' i j k n : ℕ}

/-- The positions from `s` to `e` have the property, and those beside them do not. -/
structure Run (P : ℕ → Prop) (s e : ℕ) : Prop where
  /-- It is not empty. -/
  lt : s < e
  /-- Every position in it is of the kind. -/
  all : ∀ i, s ≤ i → i < e → P i
  /-- It begins as early as it can. -/
  left : ∀ i, i + 1 = s → ¬ P i
  /-- It ends as late as it can. -/
  right : ¬ P e

/-- A stretch that meets a run is part of it. -/
theorem Run.contains (h : Run P s e) (hall : ∀ k, i ≤ k → k < j → P k) (hik : i ≤ k) (hkj : k < j)
    (hsk : s ≤ k) (hke : k < e) : s ≤ i ∧ j ≤ e := by
  constructor
  · by_contra his
    exact h.left (s - 1) (by omega) (hall (s - 1) (by omega) (by omega))
  · by_contra hje
    exact h.right (hall e (by omega) (by omega))

/-- Two runs that meet are one. -/
theorem Run.eq_of_mem (h : Run P s e) (h' : Run P s' e') (hsk : s ≤ k) (hke : k < e)
    (hsk' : s' ≤ k) (hke' : k < e') : s = s' ∧ e = e' := by
  have h₁ := h.contains h'.all hsk' hke' hsk hke
  have h₂ := h'.contains h.all hsk hke hsk' hke'
  omega

/-! ### Kinds -/

section Kinds

variable {α : Type} {f g : α → Bool} {l l' : List α} {a : α}

/-- The element at the position is of the kind. -/
def On (f : α → Bool) (l : List α) (i : ℕ) : Prop := l[i]?.any f = true

theorem on_iff : On f l i ↔ ∃ a, l[i]? = some a ∧ f a = true := Option.any_eq_true _ _

theorem on_of_getElem? (h : l[i]? = some a) : On f l i ↔ f a = true := by
  rw [On, h]
  rfl

theorem On.mono (hfg : ∀ a, f a = true → g a = true) (h : On f l i) : On g l i := by
  obtain ⟨a, ha, hf⟩ := on_iff.1 h
  exact on_iff.2 ⟨a, ha, hfg a hf⟩

theorem On.lt_length (h : On f l i) : i < l.length := by
  obtain ⟨a, ha, -⟩ := on_iff.1 h
  exact (List.getElem?_eq_some_iff.1 ha).1

/-- The kind depends on the element only. -/
theorem on_congr (h : l[i]? = l'[j]?) : On f l i ↔ On f l' j := by
  rw [On, On, h]

theorem on_drop : On f (l.drop n) i ↔ On f l (n + i) := by
  rw [On, On, List.getElem?_drop]

theorem on_take (hi : i < n) : On f (l.take n) i ↔ On f l i := by
  rw [On, On, List.getElem?_take_of_lt hi]

theorem not_on_take (hi : n ≤ i) : ¬ On f (l.take n) i := by
  rw [On, List.getElem?_take, if_neg (by omega)]
  exact Bool.false_ne_true

theorem on_cons_zero : On f (a :: l) 0 ↔ f a = true := Iff.rfl

theorem on_cons_succ : On f (a :: l) (i + 1) ↔ On f l i := Iff.rfl

theorem not_on_nil : ¬ On f ([] : List α) i := Bool.false_ne_true

/-- The elements of the kind at the front reach as far as the kind does. -/
theorem length_takeWhile_eq_iff :
    (l.takeWhile f).length = n ↔ (∀ k, k < n → On f l k) ∧ ¬ On f l n := by
  induction l generalizing n with
  | nil =>
    cases n with
    | zero => exact iff_of_true rfl ⟨by omega, not_on_nil⟩
    | succ n => exact iff_of_false nofun fun h => not_on_nil (h.1 0 (by omega))
  | cons a l ih =>
    by_cases ha : f a = true
    · rw [List.takeWhile_cons_of_pos ha, List.length_cons]
      cases n with
      | zero => exact iff_of_false nofun fun h => h.2 (on_cons_zero.2 ha)
      | succ n =>
        rw [Nat.add_right_cancel_iff, ih, on_cons_succ]
        refine and_congr_left' ⟨fun h k hk => ?_, fun h k hk => h (k + 1) (by omega)⟩
        cases k with
        | zero => exact ha
        | succ k => exact h k (by omega)
    · rw [List.takeWhile_cons_of_neg ha]
      cases n with
      | zero => exact iff_of_true rfl ⟨by omega, ha⟩
      | succ n => exact iff_of_false nofun fun h => ha (h.1 0 (by omega))

/-- Where the kind ends anyway, it makes no difference that the list is cut. -/
theorem takeWhile_take (hn : ¬ On f l n) : (l.take n).takeWhile f = l.takeWhile f := by
  induction l generalizing n with
  | nil => rw [List.take_nil]
  | cons a l ih =>
    cases n with
    | zero =>
      have ha : ¬ f a = true := hn
      rw [List.take_zero, List.takeWhile_nil, List.takeWhile_cons_of_neg ha]
    | succ n =>
      rw [List.take_succ_cons, List.takeWhile_cons, List.takeWhile_cons, ih hn]

end Kinds

end Runs
