import Mathlib.Data.List.Sort

/-!
# Sorted lists

* `LexLe`, `pairwise_mergeSort` : sorting by one key and, where it is equal, by another;
* `sublist_of_pairwise` : strictly sorted elements of a sorted list are in it in their order;
* `eq_filter_append` : a sorted list is its smaller, its equal and its larger elements.
-/

namespace Sorting

section Lex

variable {ι α β : Type} [LE α] [LT α] [Std.IsLinearOrder α] [Std.LawfulOrderLT α] [LE β]
  [Std.IsLinearOrder β]

/-- The order by the key `f` and then by the key `g`. -/
def LexLe (f : ι → α) (g : ι → β) (a b : ι) : Prop := f a < f b ∨ f a = f b ∧ g a ≤ g b

variable {f : ι → α} {g : ι → β}

theorem LexLe.trans {a b c : ι} (hab : LexLe f g a b) (hbc : LexLe f g b c) : LexLe f g a c := by
  rcases hab with hab | ⟨hab, hle⟩ <;> rcases hbc with hbc | ⟨hbc, hle'⟩
  · exact Or.inl (Std.lt_trans hab hbc)
  · exact Or.inl (hbc ▸ hab)
  · exact Or.inl (hab ▸ hbc)
  · exact Or.inr ⟨hab.trans hbc, Std.le_trans hle hle'⟩

theorem lexLe_total (a b : ι) : LexLe f g a b ∨ LexLe f g b a := by
  rcases Std.lt_trichotomy (f a) (f b) with hlt | heq | hgt
  · exact Or.inl (Or.inl hlt)
  · rcases Std.le_total (a := g a) (b := g b) with hle | hle
    · exact Or.inl (Or.inr ⟨heq, hle⟩)
    · exact Or.inr (Or.inr ⟨heq.symm, hle⟩)
  · exact Or.inr (Or.inl hgt)

/-- A merge sort by two keys sorts. -/
theorem pairwise_mergeSort {le : ι → ι → Bool} (h : ∀ a b, le a b = true ↔ LexLe f g a b)
    (l : List ι) : (l.mergeSort le).Pairwise (LexLe f g) := by
  have htrans : ∀ a b c, le a b = true → le b c = true → le a c = true := by
    intro a b c hab hbc
    rw [h] at hab hbc ⊢
    exact hab.trans hbc
  have htotal : ∀ a b, (le a b || le b a) = true := by
    intro a b
    rw [Bool.or_eq_true, h, h]
    exact lexLe_total a b
  exact (List.pairwise_mergeSort htrans htotal l).imp fun hle => (h _ _).mp hle

end Lex

/-- Elements of a sorted list that are strictly sorted are in it in their order. -/
theorem sublist_of_pairwise {α : Type} {R : α → α → Prop} {l c : List α} (hrefl : ∀ a, R a a)
    (hl : l.Pairwise R) (hc : c.Pairwise fun a b => ¬ R b a) (hmem : ∀ a ∈ c, a ∈ l) :
    c.Sublist l := by
  induction c generalizing l with
  | nil => exact List.nil_sublist l
  | cons a c ih =>
    obtain ⟨hall, hrest⟩ := List.pairwise_cons.mp hc
    obtain ⟨before, after, rfl⟩ := List.append_of_mem (hmem a List.mem_cons_self)
    obtain ⟨-, hafter, hbetween⟩ := List.pairwise_append.mp hl
    have hsub : c.Sublist after := by
      refine ih (List.pairwise_cons.mp hafter).2 hrest fun b hb => ?_
      rcases List.mem_append.mp (hmem b (List.mem_cons_of_mem a hb)) with hb' | hb'
      · exact absurd (hbetween b hb' a List.mem_cons_self) (hall b hb)
      · rcases List.mem_cons.mp hb' with rfl | hb'
        · exact absurd (hrefl b) (hall b hb)
        · exact hb'
    exact (hsub.cons_cons a).trans (List.sublist_append_right before _)

/-- A list in the order of a key: first the smaller keys, then the equal ones, then the larger
ones. -/
theorem eq_filter_append {α : Type} {key : α → ℤ} {l : List α}
    (h : l.Pairwise fun a b => key a ≤ key b) (t : ℤ) :
    l = l.filter (fun a => key a < t) ++
      (l.filter (fun a => key a = t) ++ l.filter (fun a => t < key a)) := by
  induction l with
  | nil => rfl
  | cons a l ih =>
    obtain ⟨hall, hrest⟩ := List.pairwise_cons.mp h
    have hl := ih hrest
    have hnil : ∀ p : α → Bool, (∀ b ∈ l, p b = false) → l.filter p = [] := by
      intro p hp
      rw [List.filter_eq_nil_iff]
      intro b hb
      rw [hp b hb]
      exact Bool.false_ne_true
    rcases lt_trichotomy (key a) t with hlt | heq | hgt
    · simp only [List.filter_cons, hlt, decide_true, ↓reduceIte, hlt.ne, hlt.not_gt, decide_false,
        Bool.false_eq_true, List.cons_append]
      rw [← hl]
    · have hless : l.filter (fun a => decide (key a < t)) = [] := hnil _ fun b hb => by
        have := hall b hb
        simp only [decide_eq_false_iff_not]
        omega
      rw [hless, List.nil_append] at hl
      simp only [List.filter_cons, heq, lt_irrefl, decide_true, ↓reduceIte, decide_false,
        Bool.false_eq_true, List.cons_append, hless, List.nil_append]
      rw [← hl]
    · have hless : l.filter (fun a => decide (key a < t)) = [] := hnil _ fun b hb => by
        have := hall b hb
        simp only [decide_eq_false_iff_not]
        omega
      have hequal : l.filter (fun a => decide (key a = t)) = [] := hnil _ fun b hb => by
        have := hall b hb
        simp only [decide_eq_false_iff_not]
        omega
      rw [hless, hequal, List.nil_append, List.nil_append] at hl
      simp only [List.filter_cons, hgt, hgt.ne', hgt.not_gt, decide_true, ↓reduceIte, decide_false,
        Bool.false_eq_true, hless, hequal, List.nil_append]
      rw [← hl]

end Sorting
