import Mathlib.Data.List.Pairwise
import Mathlib.Order.Defs.LinearOrder

/-!
# Ordered maps that keep the first value of a key

A map by keys as the list of its values in the order of the keys.

* `orInsert` : insert a value if its key is vacant;
* `find?_foldl_orInsert` : what is at a key after a number of insertions;
* `mem_foldl_orInsert` : the values of the map are the first of their key.
-/

namespace OrInsert

variable {κ α : Type} [LT κ] [DecidableEq κ] [DecidableLT κ] {key : α → κ}

/-- Insert `a` if there is no value with its key. -/
def orInsert (key : α → κ) (a : α) : List α → List α
  | [] => [a]
  | b :: l =>
    if key a < key b then a :: b :: l
    else if key a = key b then b :: l
    else b :: orInsert key a l

/-- The values are in the order of their keys, one for each. -/
def Ordered (key : α → κ) (l : List α) : Prop := l.Pairwise fun a b => key a < key b

theorem mem_orInsert {a b : α} {l : List α} (h : b ∈ orInsert key a l) : b = a ∨ b ∈ l := by
  induction l with
  | nil => exact Or.inl (List.mem_singleton.1 h)
  | cons c l ih =>
    rw [orInsert] at h
    split_ifs at h
    · exact List.mem_cons.1 h
    · exact Or.inr h
    · rcases List.mem_cons.1 h with rfl | h
      · exact Or.inr List.mem_cons_self
      · exact (ih h).imp_right (List.mem_cons_of_mem c)

variable [LE κ] [Std.IsLinearOrder κ] [Std.LawfulOrderLT κ]

theorem Ordered.orInsert {l : List α} (h : Ordered key l) (a : α) :
    Ordered key (orInsert key a l) := by
  induction l with
  | nil => exact List.pairwise_singleton _ _
  | cons b l ih =>
    obtain ⟨hb, hl⟩ := List.pairwise_cons.1 h
    rw [OrInsert.orInsert]
    split_ifs with hlt heq
    · refine List.pairwise_cons.2 ⟨fun c hc => ?_, h⟩
      rcases List.mem_cons.1 hc with rfl | hc
      · exact hlt
      · exact Std.lt_trans hlt (hb c hc)
    · exact h
    · refine List.pairwise_cons.2 ⟨fun c hc => ?_, ih hl⟩
      rcases mem_orInsert hc with rfl | hc
      · rcases Std.lt_trichotomy (key b) (key c) with hbc | hbc | hbc
        · exact hbc
        · exact absurd hbc.symm heq
        · exact absurd hbc hlt
      · exact hb c hc

theorem find?_orInsert {l : List α} (h : Ordered key l) (a : α) (k : κ) :
    (orInsert key a l).find? (key · = k) =
      (l.find? (key · = k)).or (if key a = k then some a else none) := by
  induction l with
  | nil =>
    rw [orInsert, List.find?_cons, List.find?_nil, Option.none_or]
    by_cases hk : key a = k
    · simp only [hk, decide_true, if_true]
    · simp only [hk, decide_false, if_false]
  | cons b l ih =>
    obtain ⟨hb, hl⟩ := List.pairwise_cons.1 h
    rw [orInsert]
    by_cases hlt : key a < key b
    · rw [if_pos hlt, List.find?_cons]
      by_cases hk : key a = k
      · -- All keys of the list are above that of `a`, so it is not there.
        have hnone : (b :: l).find? (key · = k) = none := by
          rw [List.find?_eq_none]
          intro c hc hck
          have hkc : key c = key a := (of_decide_eq_true hck).trans hk.symm
          rcases List.mem_cons.1 hc with rfl | hc
          · exact Std.lt_irrefl (hkc ▸ hlt)
          · exact Std.lt_irrefl (hkc ▸ Std.lt_trans hlt (hb c hc))
        simp only [hnone, hk, decide_true, if_true, Option.none_or]
      · simp only [hk, decide_false, if_false, Option.or_none]
    · rw [if_neg hlt]
      by_cases heq : key a = key b
      · rw [if_pos heq]
        by_cases hk : key a = k
        · have hbk : key b = k := heq.symm.trans hk
          rw [List.find?_cons]
          simp only [hbk, decide_true, Option.some_or]
        · rw [if_neg hk, Option.or_none]
      · rw [if_neg heq, List.find?_cons, List.find?_cons, ih hl]
        by_cases hbk : key b = k
        · simp only [hbk, decide_true, Option.some_or]
        · simp only [hbk, decide_false]

/-- What is at a key after a number of insertions: what was there before, or the first. -/
theorem find?_foldl_orInsert {l : List α} (h : Ordered key l) (as : List α) (k : κ) :
    (as.foldl (fun l a => orInsert key a l) l).find? (key · = k) =
      (l.find? (key · = k)).or (as.find? (key · = k)) := by
  induction as generalizing l with
  | nil => rw [List.foldl_nil, List.find?_nil, Option.or_none]
  | cons a as ih =>
    rw [List.foldl_cons, ih (h.orInsert a), find?_orInsert h, Option.or_assoc, List.find?_cons]
    by_cases hk : key a = k
    · simp only [hk, if_true, decide_true, Option.some_or]
    · simp only [hk, if_false, decide_false, Option.none_or]

theorem ordered_foldl_orInsert {l : List α} (h : Ordered key l) (as : List α) :
    Ordered key (as.foldl (fun l a => orInsert key a l) l) := by
  induction as generalizing l with
  | nil => exact h
  | cons a as ih => exact ih (h.orInsert a)

omit [DecidableLT κ] [Std.IsLinearOrder κ] in
/-- A value is in an ordered list if it is what is at its key. -/
theorem Ordered.mem_iff {l : List α} (h : Ordered key l) {a : α} :
    a ∈ l ↔ l.find? (key · = key a) = some a := by
  constructor
  · intro hmem
    induction l with
    | nil => cases hmem
    | cons b l ih =>
      obtain ⟨hb, hl⟩ := List.pairwise_cons.1 h
      rw [List.find?_cons]
      rcases List.mem_cons.1 hmem with rfl | hmem
      · simp only [decide_true]
      · have hne : key b ≠ key a := fun heq => Std.lt_irrefl (heq ▸ hb a hmem)
        simp only [hne, decide_false]
        exact ih hl hmem
  · exact List.mem_of_find?_eq_some

/-- **The values of the map are the first of their key.** -/
theorem mem_foldl_orInsert {as : List α} {a : α} :
    a ∈ as.foldl (fun l a => orInsert key a l) [] ↔ as.find? (key · = key a) = some a := by
  have hnil : Ordered key ([] : List α) := List.Pairwise.nil
  rw [(ordered_foldl_orInsert hnil as).mem_iff, find?_foldl_orInsert hnil, List.find?_nil,
    Option.none_or]

end OrInsert
