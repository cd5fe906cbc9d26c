import Mathlib.Data.Fintype.Card
import Mathlib.Data.Fintype.EquivFin

/-!
# Open addressing with linear probing

A table of `n` slots holds values, each with a home slot.  A value goes to the first free slot from
its home on, around the end of the table if need be; a search from a home goes on until it finds
what it looks for or a free slot.

* `slot n h i` : the slot `i` steps after `h`;
* `FirstFree`, `exists_firstFree`, `exists_free` : a table with fewer values than slots has a first
  free slot from anywhere;
* `Probed` : between its home and its slot, a value has no free slot.  `Probed.insert` : putting a
  value into the first free slot keeps it so;
* `seek`, `seek_spec` : a search ends;
* `Probed.lt_firstFree` : from its home on, a value is met before a free slot.
-/

namespace Probe

variable {α : Type} {n : ℕ} {t : ℕ → Option α} {home : α → ℕ}

/-- The slot `i` steps after `h`, around the end of the table. -/
def slot (n h i : ℕ) : ℕ := (h + i) % n

theorem slot_lt (hn : 0 < n) (h i : ℕ) : slot n h i < n := Nat.mod_lt _ hn

theorem slot_zero {h : ℕ} (hh : h < n) : slot n h 0 = h := Nat.mod_eq_of_lt hh

theorem slot_succ (h i : ℕ) : slot n (slot n h 1) i = slot n h (i + 1) := by
  rw [slot, slot, slot, Nat.mod_add_mod, Nat.add_assoc, Nat.add_comm 1 i]

theorem exists_slot {h s : ℕ} (hs : s < n) : ∃ i < n, slot n h i = s := by
  have hmod := Nat.mod_lt h (Nat.zero_lt_of_lt hs)
  refine ⟨(s + (n - h % n)) % n, Nat.mod_lt _ (Nat.zero_lt_of_lt hs), ?_⟩
  rw [slot, Nat.add_mod_mod, ← Nat.mod_add_mod h, show h % n + (s + (n - h % n)) = s + n by omega,
    Nat.add_mod_right, Nat.mod_eq_of_lt hs]

/-! ### Free slots -/

/-- The first free slot from `h` on is `i` steps away. -/
structure FirstFree (n : ℕ) (t : ℕ → Option α) (h i : ℕ) : Prop where
  /-- It is a slot of the table. -/
  lt : i < n
  /-- It is free. -/
  free : t (slot n h i) = none
  /-- No slot before it is. -/
  before : ∀ j < i, t (slot n h j) ≠ none

/-- If there is a free slot, there is a first one from anywhere. -/
theorem exists_firstFree {s : ℕ} (hs : s < n) (hfree : t s = none) (h : ℕ) :
    ∃ i, FirstFree n t h i := by
  classical
  obtain ⟨i, hi, hslot⟩ := exists_slot (h := h) hs
  have hex : ∃ i, i < n ∧ t (slot n h i) = none := ⟨i, hi, by rw [hslot, hfree]⟩
  refine ⟨Nat.find hex, (Nat.find_spec hex).1, (Nat.find_spec hex).2, fun j hj hnone => ?_⟩
  exact Nat.find_min hex hj ⟨hj.trans (Nat.find_spec hex).1, hnone⟩

/-- A table with fewer values than slots has a free slot, if no value is in two slots. -/
theorem exists_free {m : ℕ} {t : ℕ → Option ℕ} (hm : m < n)
    (hvalues : ∀ s < n, ∀ a, t s = some a → a < m)
    (hinj : ∀ s < n, ∀ s' < n, ∀ a, t s = some a → t s' = some a → s = s') :
    ∃ s < n, t s = none := by
  by_contra hfull
  have hsome : ∀ s : Fin n, ∃ a : Fin m, t s = some a.val := by
    intro s
    cases hs : t s with
    | none => exact absurd ⟨s.val, s.isLt, hs⟩ hfull
    | some a => exact ⟨⟨a, hvalues s s.isLt a hs⟩, rfl⟩
  choose value hvalue using hsome
  have hinjective : Function.Injective value := by
    intro s s' h
    have hs' := hvalue s'
    rw [← h] at hs'
    exact Fin.ext (hinj s s.isLt s' s'.isLt _ (hvalue s) hs')
  have hcard := Fintype.card_le_of_injective value hinjective
  rw [Fintype.card_fin, Fintype.card_fin] at hcard
  omega

/-! ### Values in their places -/

/-- A value is in the first slot from its home on that was free when it was put there. -/
def Probed (n : ℕ) (home : α → ℕ) (t : ℕ → Option α) : Prop :=
  ∀ s < n, ∀ a, t s = some a → ∃ i < n, s = slot n (home a) i ∧
    ∀ j < i, t (slot n (home a) j) ≠ none

theorem probed_empty : Probed n home fun _ => none := fun _ _ _ h => nomatch h

/-- Putting a value into the first free slot from its home on. -/
theorem Probed.insert (h : Probed n home t) {a : α} {i : ℕ} (hfree : FirstFree n t (home a) i) :
    Probed n home (Function.update t (slot n (home a) i) (some a)) := by
  have hmore : ∀ s, t s ≠ none → Function.update t (slot n (home a) i) (some a) s ≠ none := by
    intro s hs
    by_cases heq : s = slot n (home a) i
    · rw [heq, Function.update_self]
      exact Option.some_ne_none a
    · rwa [Function.update_of_ne heq]
  intro s hs b hb
  by_cases heq : s = slot n (home a) i
  · rw [heq, Function.update_self] at hb
    cases hb
    exact ⟨i, hfree.lt, heq, fun j hj => hmore _ (hfree.before j hj)⟩
  · rw [Function.update_of_ne heq] at hb
    obtain ⟨k, hk, hslot, hbefore⟩ := h s hs b hb
    exact ⟨k, hk, hslot, fun j hj => hmore _ (hbefore j hj)⟩

/-! ### Searching -/

/-- Search from the slot `s` on, at most `fuel` slots: `none` when the fuel is used up. -/
def seek (n : ℕ) (t : ℕ → Option α) (hit : α → Bool) : ℕ → ℕ → Option (Option α)
  | 0, _ => none
  | fuel + 1, s =>
    match t s with
    | none => some none
    | some a => if hit a then some (some a) else seek n t hit fuel (slot n s 1)

/-- **A search ends** at the first free slot if not before: it returns a value it looks for, or
there is none up to there. -/
theorem seek_spec (hit : α → Bool) {h i fuel : ℕ} (hh : h < n) (hfree : FirstFree n t h i)
    (hfuel : i < fuel) :
    ∃ r, seek n t hit fuel h = some r ∧
      (∀ a, r = some a → hit a = true ∧ ∃ s < n, t s = some a) ∧
      (r = none → ∀ j < i, ∀ a, t (slot n h j) = some a → hit a = false) := by
  induction fuel generalizing h i with
  | zero => exact absurd hfuel (Nat.not_lt_zero _)
  | succ fuel ih =>
    rw [seek]
    cases hs : t h with
    | none =>
      refine ⟨none, rfl, nofun, fun _ j hj => ?_⟩
      -- The home is free, so there is nothing before the first free slot.
      have hzero : i = 0 := by
        by_contra hne
        exact hfree.before 0 (Nat.pos_of_ne_zero hne) (by rw [slot_zero hh, hs])
      omega
    | some a =>
      by_cases hhit : hit a = true
      · simp only [hhit, ↓reduceIte]
        exact ⟨some a, rfl, fun b hb => by cases hb; exact ⟨hhit, h, hh, hs⟩, nofun⟩
      · simp only [hhit]
        obtain ⟨i, rfl⟩ : ∃ k, i = k + 1 := by
          refine Nat.exists_eq_succ_of_ne_zero fun hzero => ?_
          have hnone := hfree.free
          rw [hzero, slot_zero hh, hs] at hnone
          cases hnone
        have hnext : FirstFree n t (slot n h 1) i := by
          refine ⟨by have := hfree.lt; omega, by rw [slot_succ]; exact hfree.free, fun j hj => ?_⟩
          rw [slot_succ]
          exact hfree.before (j + 1) (Nat.succ_lt_succ hj)
        obtain ⟨r, hr, hsome, hnone⟩ := ih (slot_lt (Nat.zero_lt_of_lt hh) h 1) hnext (by omega)
        refine ⟨r, hr, hsome, fun hr j hj b hb => ?_⟩
        cases j with
        | zero =>
          rw [slot_zero hh, hs] at hb
          cases hb
          exact Bool.eq_false_iff.mpr hhit
        | succ j =>
          rw [← slot_succ] at hb
          exact hnone hr j (Nat.lt_of_succ_lt_succ hj) b hb

/-- **A search finds what is there**: from its home on, a value is met before a free slot. -/
theorem Probed.lt_firstFree (h : Probed n home t) {s : ℕ} (hs : s < n) {a : α} (ha : t s = some a)
    {i : ℕ} (hfree : FirstFree n t (home a) i) : ∃ j < i, t (slot n (home a) j) = some a := by
  obtain ⟨j, hj, hslot, hbefore⟩ := h s hs a ha
  refine ⟨j, ?_, hslot ▸ ha⟩
  by_contra hle
  rcases Nat.lt_or_eq_of_le (Nat.not_lt.mp hle) with hlt | heq
  · exact hbefore i hlt hfree.free
  · rw [hslot, ← heq, hfree.free] at ha
    cases ha

end Probe
