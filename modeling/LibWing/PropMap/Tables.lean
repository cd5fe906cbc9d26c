import LibWing.Lib.Probe
import LibWing.Lib.Sorting
import LibWing.PropMap.Layout

/-!
# The tables of the property map

The hash table of the generator is a table of ordinals with linear probing, at most half full.

* `view` : a hash table as a table of ordinals;
* `Filled` : the ordinals below `m` are in the table, each once, where a search finds them;
* `hashTable_filled` : the generator fills the table with all ordinals;
* `idOrder_perm`, `idOrder_pairwise` : the other table has them in the order of the ids.
-/

namespace LibWing

namespace Wingschema

open Probe

theorem hashSlots_pos {count : ℕ} (h : count ≠ 0) :
    ∃ k, hashSlots count = 2 ^ k ∧ count * 2 ≤ 2 ^ k := by
  refine ⟨Nat.clog 2 (count * 2), ?_, Nat.le_pow_clog one_lt_two _⟩
  rw [hashSlots, if_neg h, nextPowerOfTwo]

/-- A hash table as a table of ordinals. -/
def view (hash : List UInt32) (s : ℕ) : Option ℕ :=
  match hash[s]? with
  | some x => if x = 0xffffffff then none else some x.toNat
  | none => none

theorem view_eq_none {hash : List UInt32} {s : ℕ} {x : UInt32} (h : hash[s]? = some x) :
    view hash s = none ↔ x = 0xffffffff := by
  simp only [view, h]
  split_ifs with hx
  · exact ⟨fun _ => hx, fun _ => rfl⟩
  · exact ⟨nofun, fun h => absurd h hx⟩

theorem view_set {hash : List UInt32} {s m : ℕ} (hs : s < hash.length) (hm : m < 0xffffffff) :
    view (hash.set s (UInt32.ofNat m)) = Function.update (view hash) s (some m) := by
  have hval : (UInt32.ofNat m).toNat = m := by
    rw [UInt32.toNat_ofNat', Nat.mod_eq_of_lt (by omega)]
  have hne : UInt32.ofNat m ≠ 0xffffffff := by
    intro h
    have hmax := congrArg UInt32.toNat h
    rw [hval] at hmax
    change m = 0xffffffff at hmax
    omega
  funext j
  by_cases hj : j = s
  · rw [hj, Function.update_self, view, List.getElem?_set_self hs]
    simp only [hne, ↓reduceIte, hval]
  · rw [Function.update_of_ne hj, view, view, List.getElem?_set_ne (Ne.symm hj)]

section Filling

variable (names : ℕ → List UInt8) {slots k : ℕ} {hash : List UInt32}

/-- The home of an ordinal. -/
def home (slots o : ℕ) : ℕ := nameHash (names o) % slots

/-- The ordinals below `m` are in the table, each once, where a search finds them. -/
structure Filled (slots : ℕ) (hash : List UInt32) (m : ℕ) : Prop where
  /-- The table has all its slots. -/
  length : hash.length = slots
  /-- A search from a home finds what is stored. -/
  probed : Probed slots (home names slots) (view hash)
  /-- It stores ordinals of records. -/
  values : ∀ s < slots, ∀ o, view hash s = some o → o < m
  /-- Each at most once. -/
  once : ∀ s < slots, ∀ s' < slots, ∀ o, view hash s = some o → view hash s' = some o → s = s'
  /-- And each of them. -/
  all : ∀ o < m, ∃ s < slots, view hash s = some o

theorem view_replicate (slots : ℕ) : view (List.replicate slots 0xffffffff) = fun _ => none := by
  funext s
  unfold view
  rw [List.getElem?_replicate]
  by_cases hs : s < slots
  · rw [if_pos hs]
    rfl
  · rw [if_neg hs]

theorem filled_empty (slots : ℕ) : Filled names slots (List.replicate slots 0xffffffff) 0 := by
  constructor
  case length => exact List.length_replicate
  case all => exact fun o h => absurd h (Nat.not_lt_zero o)
  all_goals rw [view_replicate]
  case probed => exact probed_empty
  case values => exact fun s _ o => nofun
  case once => exact fun s _ s' _ o => nofun

theorem freeSlot_eq (hlen : hash.length = 2 ^ k) {h i fuel : ℕ} (hh : h < 2 ^ k)
    (hfree : FirstFree (2 ^ k) (view hash) h i) (hfuel : i < fuel) :
    freeSlot hash (2 ^ k) fuel h = some (slot (2 ^ k) h i) := by
  induction fuel generalizing h i with
  | zero => exact absurd hfuel (Nat.not_lt_zero _)
  | succ fuel ih =>
    have hget : hash[h]? = some hash[h] := List.getElem?_eq_getElem (by omega)
    rw [freeSlot, hget]
    simp only [Option.bind_eq_bind, Option.bind_some]
    cases i with
    | zero =>
      have hempty := hfree.free
      rw [slot_zero hh, view_eq_none hget] at hempty
      rw [if_neg (not_not.mpr hempty), slot_zero hh]
      rfl
    | succ i =>
      have hused := hfree.before 0 (Nat.succ_pos i)
      rw [slot_zero hh, Ne, view_eq_none hget] at hused
      rw [if_pos hused, Nat.and_two_pow_sub_one_eq_mod]
      have hpos : 0 < 2 ^ k := Nat.zero_lt_of_lt hh
      have hnext : FirstFree (2 ^ k) (view hash) (slot (2 ^ k) h 1) i := by
        refine ⟨Nat.lt_of_succ_lt hfree.lt, by rw [slot_succ]; exact hfree.free, fun j hj => ?_⟩
        rw [slot_succ]
        exact hfree.before (j + 1) (Nat.succ_lt_succ hj)
      have hih := ih (slot_lt hpos h 1) hnext (Nat.lt_of_succ_lt_succ hfuel)
      rw [slot_succ] at hih
      exact hih

/-- **One more ordinal.** -/
theorem Filled.insertSlot {m : ℕ} (h : Filled names (2 ^ k) hash m) (hroom : m < 2 ^ k)
    (hm : m < 0xffffffff) {r : Scanned} (hr : r.name = names m) :
    ∃ hash', Wingschema.insertSlot (2 ^ k) hash (r, m) = some hash' ∧
      Filled names (2 ^ k) hash' (m + 1) := by
  obtain ⟨s₀, hs₀, hnone⟩ := exists_free hroom h.values h.once
  obtain ⟨i, hfree⟩ := exists_firstFree hs₀ hnone (home names (2 ^ k) m)
  have hpos : 0 < 2 ^ k := Nat.two_pow_pos k
  have hhome : home names (2 ^ k) m < 2 ^ k := Nat.mod_lt _ hpos
  have hslot := slot_lt hpos (home names (2 ^ k) m) i
  have hview := @view_set hash _ _ (by rw [h.length]; exact hslot) hm
  refine ⟨hash.set (slot (2 ^ k) (home names (2 ^ k) m) i) (UInt32.ofNat m), ?_, ?_⟩
  · have hfind := freeSlot_eq h.length hhome hfree hfree.lt
    simp only [Wingschema.insertSlot, hr, Nat.and_two_pow_sub_one_eq_mod]
    rw [show nameHash (names m) % 2 ^ k = home names (2 ^ k) m from rfl, hfind]
    rfl
  · -- The slot was free, and the new ordinal was nowhere.
    have hcases : ∀ s o, view (hash.set (slot (2 ^ k) (home names (2 ^ k) m) i)
      (UInt32.ofNat m)) s =
        some o → (s = slot (2 ^ k) (home names (2 ^ k) m) i ∧ o = m) ∨ view hash s = some o := by
      intro s o ho
      rw [hview] at ho
      by_cases hs : s = slot (2 ^ k) (home names (2 ^ k) m) i
      · rw [hs, Function.update_self] at ho
        exact Or.inl ⟨hs, (Option.some.inj ho).symm⟩
      · rw [Function.update_of_ne hs] at ho
        exact Or.inr ho
    refine ⟨by rw [List.length_set, h.length], ?_, fun s hs o ho => ?_,
      fun s hs s' hs' o ho ho' => ?_, fun o ho => ?_⟩
    · rw [hview]
      exact h.probed.insert hfree
    · rcases hcases s o ho with ⟨-, rfl⟩ | hold
      · exact Nat.lt_succ_self _
      · exact Nat.lt_succ_of_lt (h.values s hs o hold)
    · rcases hcases s o ho with ⟨rfl, rfl⟩ | hold <;> rcases hcases s' o ho' with ⟨rfl, hm'⟩ | hold'
      · rfl
      · exact absurd (h.values s' hs' o hold') (Nat.lt_irrefl _)
      · exact absurd (h.values s hs o hold) (by omega)
      · exact h.once s hs s' hs' o hold hold'
    · rw [hview]
      rcases Nat.lt_or_eq_of_le (Nat.le_of_lt_succ ho) with hlt | rfl
      · obtain ⟨s, hs, hsome⟩ := h.all o hlt
        refine ⟨s, hs, ?_⟩
        rw [Function.update_of_ne, hsome]
        rintro rfl
        rw [hfree.free] at hsome
        cases hsome
      · exact ⟨_, hslot, Function.update_self ..⟩

end Filling

/-- The name of the record with the ordinal `o`. -/
def nameAt (records : List Scanned) (o : ℕ) : List UInt8 :=
  match records[o]? with
  | some r => r.name
  | none => []

theorem foldlM_filled {k : ℕ} {records : List Scanned} (hroom : records.length < 2 ^ k)
    (hlen : records.length < 2 ^ 31) {done rest : List Scanned} (h : records = done ++ rest)
    {hash : List UInt32} (hfilled : Filled (nameAt records) (2 ^ k) hash done.length) :
    ∃ hash', (rest.zipIdx done.length).foldlM (insertSlot (2 ^ k)) hash = some hash' ∧
      Filled (nameAt records) (2 ^ k) hash' records.length := by
  induction rest generalizing done hash with
  | nil =>
    rw [List.append_nil] at h
    exact ⟨hash, rfl, h ▸ hfilled⟩
  | cons r rest ih =>
    have hlt : done.length < records.length := by
      rw [h, List.length_append, List.length_cons]
      omega
    have hname : r.name = nameAt records done.length := by
      simp [nameAt, h]
    obtain ⟨hash', hinsert, hfilled'⟩ :=
      hfilled.insertSlot _ (hlt.trans hroom) (by omega) hname
    have hdone : records = (done ++ [r]) ++ rest := by
      rw [h, List.append_assoc]
      rfl
    obtain ⟨hash'', hfold, hfinal⟩ := ih hdone (by
      rw [List.length_append, List.length_singleton]
      exact hfilled')
    refine ⟨hash'', ?_, hfinal⟩
    rw [List.zipIdx_cons, List.foldlM_cons, hinsert]
    rw [List.length_append, List.length_singleton] at hfold
    exact hfold

/-- **The hash table** of the generator has all ordinals. -/
theorem hashTable_filled {records : List Scanned} (hne : records ≠ [])
    (hlen : records.length < 2 ^ 31) :
    ∃ k hash, hashSlots records.length = 2 ^ k ∧ records.length < 2 ^ k ∧
      hashTable records = some hash ∧ Filled (nameAt records) (2 ^ k) hash records.length := by
  have hpos : records.length ≠ 0 := fun h => hne (List.eq_nil_of_length_eq_zero h)
  obtain ⟨k, hslots, hroom⟩ := hashSlots_pos hpos
  have hlt : records.length < 2 ^ k := by omega
  obtain ⟨hash, hfold, hfilled⟩ := foldlM_filled hlt hlen (List.nil_append records).symm
    (filled_empty _ (2 ^ k))
  refine ⟨k, hash, hslots, hlt, ?_, hfilled⟩
  rw [hashTable, hslots]
  exact hfold

/-! ### The order of the ids -/

theorem idOrder_perm {records : List Scanned} (hlen : records.length < 2 ^ 31) :
    (idOrder records).Perm (List.range records.length) := by
  have hval : (UInt32.ofNat records.length).toNat = records.length := by
    rw [UInt32.toNat_ofNat', Nat.mod_eq_of_lt (by omega)]
  rw [idOrder, hval]
  exact List.mergeSort_perm _ _

theorem idOrder_pairwise (records : List Scanned) :
    (idOrder records).Pairwise (Sorting.LexLe (idAt records) id) :=
  Sorting.pairwise_mergeSort (fun a b => by rw [idLe, decide_eq_true_eq]; rfl) _

end Wingschema

end LibWing
