import LibWing.PropMap.Tables

/-!
# Lookups in the property map

What the lookups return, of an index whose tables are right.

* `Represents` : the index has the records, in the order of their names, and its tables agree;
* `Represents.find_spec` : the search by name ends, and finds the record with the name;
* `partitionPoint_eq` : the binary search;
* `Represents.get_eq`, `idOf_eq`, `iter_eq`, `byId_eq` : the lookups.
-/

namespace LibWing

open Wingschema Probe

/-- The index has the records, in the order of their names. -/
structure Represents (ix : PropIndex) (sorted : List Record) : Prop where
  /-- It has as many records. -/
  len : ix.len = sorted.length
  /-- They are in the order of their names. -/
  strict : sorted.Pairwise fun a b => utf8 a.name < utf8 b.name
  /-- Each is found by its ordinal. -/
  raw : ∀ {o : ℕ} {r : Record}, sorted[o]? = some r → ix.raw o = some (utf8 r.name, r.bytes)
  /-- The ordinals in the order of the ids, and of the names where these are equal. -/
  order : ∃ order : List ℕ, order.Perm (List.range sorted.length) ∧
    (order.Pairwise fun a b => ∀ r r', sorted[a]? = some r → sorted[b]? = some r' →
      r.definition.id < r'.definition.id ∨ r.definition.id = r'.definition.id ∧ a ≤ b) ∧
    ∀ k o, order[k]? = some o → ix.ordinalById k = some o
  /-- The hash table. -/
  table : (sorted = [] ∧ ix.hash = []) ∨ ∃ k hash names, ix.hash.length = 2 ^ k * 4 ∧
    sorted.length < 2 ^ k ∧ (∀ s x, hash[s]? = some x → be32 ix.hash (s * 4) = some x.toNat) ∧
    Filled names (2 ^ k) hash sorted.length ∧
    ∀ o r, sorted[o]? = some r → names o = utf8 r.name

theorem utf8_inj {a b : String} (h : utf8 a = utf8 b) : a = b := by
  have ha := fromUtf8_utf8 a
  rw [h, fromUtf8_utf8] at ha
  exact (Option.some.inj ha).symm

/-- A program that reads the elements of a list one by one. -/
theorem mapM_range' {α β : Type} {f : ℕ → Option β} {g : α → β} {l : List α} {start : ℕ}
    (h : ∀ j x, l[j]? = some x → f (start + j) = some (g x)) :
    (List.range' start l.length).mapM f = some (l.map g) := by
  induction l generalizing start with
  | nil => rfl
  | cons x l ih =>
    have hnext : ∀ j y, l[j]? = some y → f (start + 1 + j) = some (g y) := by
      intro j y hy
      rw [Nat.add_right_comm]
      exact h (j + 1) y hy
    have hfirst : f start = some (g x) := h 0 x rfl
    rw [List.length_cons, List.range'_succ, List.mapM_cons, hfirst, ih hnext]
    rfl

namespace Represents

variable {ix : PropIndex} {sorted : List Record} (h : Represents ix sorted)
include h

theorem name_eq {o : ℕ} {r : Record} (hr : sorted[o]? = some r) : ix.name o = some r.name := by
  rw [PropIndex.name, h.raw hr]
  exact fromUtf8_utf8 r.name

theorem idAt_eq {o : ℕ} {r : Record} (hr : sorted[o]? = some r) :
    ix.idAt o = some r.definition.id := by
  rw [PropIndex.idAt, h.raw hr]
  exact definitionId_eq r.parses

theorem definition_eq {o : ℕ} {r : Record} (hr : sorted[o]? = some r) :
    ix.definition o = some r.definition := by
  rw [PropIndex.definition, h.raw hr]
  simp only [Option.bind_eq_bind, Option.bind_some, r.parses]
  rfl

theorem entry_eq {o : ℕ} {r : Record} (hr : sorted[o]? = some r) :
    ix.entry o = some (r.name, r.definition) := by
  rw [PropIndex.entry, h.name_eq hr, h.definition_eq hr]
  rfl

theorem name_inj {r r' : Record} (hr : r ∈ sorted) (hr' : r' ∈ sorted) (heq : r.name = r'.name) :
    r = r' := by
  have hnodup : (sorted.map Record.name).Nodup := by
    rw [List.Nodup, List.pairwise_map]
    refine h.strict.imp fun hlt heq => ?_
    rw [heq] at hlt
    exact Std.lt_irrefl hlt
  exact List.inj_on_of_nodup_map hnodup hr hr' heq

/-! ### By name -/

theorem findLoop_eq {k : ℕ} {hash : List UInt32} {names : ℕ → List UInt8}
    (hbytes : ∀ s x, hash[s]? = some x → be32 ix.hash (s * 4) = some x.toNat)
    (hfilled : Filled names (2 ^ k) hash sorted.length)
    (hnames : ∀ o r, sorted[o]? = some r → names o = utf8 r.name) (name : List UInt8)
    {fuel s : ℕ} (hs : s < 2 ^ k) :
    ix.findLoop (2 ^ k) name fuel s =
      seek (2 ^ k) (view hash) (fun o => decide (names o = name)) fuel s := by
  induction fuel generalizing s with
  | zero => rfl
  | succ fuel ih =>
    have hlt : s < hash.length := hfilled.length ▸ hs
    obtain ⟨x, hget⟩ : ∃ x, hash[s]? = some x := ⟨hash[s], List.getElem?_eq_getElem hlt⟩
    have hempty : x.toNat = emptySlot ↔ view hash s = none := by
      rw [view_eq_none hget]
      exact UInt32.toNat_inj (b := 0xffffffff)
    rw [PropIndex.findLoop, seek, hbytes s _ hget]
    simp only [Option.bind_eq_bind, Option.bind_some]
    cases hview : view hash s with
    | none =>
      rw [if_pos (hempty.mpr hview)]
      rfl
    | some o =>
      have hne : ¬ x.toNat = emptySlot := by
        rw [hempty, hview]
        exact Option.some_ne_none o
      have hval : x.toNat = o := by
        simp only [view, hget] at hview
        split_ifs at hview
        exact Option.some.inj hview
      have ho : o < sorted.length := hfilled.values s hs o hview
      have hr : sorted[o]? = some sorted[o] := List.getElem?_eq_getElem ho
      rw [if_neg hne, hval, h.raw hr]
      simp only [Option.bind_some, decide_eq_true_eq, hnames o _ hr]
      by_cases hhit : utf8 sorted[o].name = name
      · rw [if_pos hhit, if_pos hhit]
        rfl
      · rw [if_neg hhit, if_neg hhit, Nat.and_two_pow_sub_one_eq_mod]
        exact ih (slot_lt (Nat.two_pow_pos k) s 1)

/-- **`find` ends, and finds the record with the name**, if there is one. -/
theorem find_spec (name : String) :
    ∃ found, ix.find name = some found ∧
      (∀ o, found = some o → ∃ r, sorted[o]? = some r ∧ r.name = name) ∧
      (found = none → ∀ r ∈ sorted, r.name ≠ name) := by
  rcases h.table with ⟨hnil, hhash⟩ | ⟨k, hash, names, hlen, hroom, hbytes, hfilled, hnames⟩
  · refine ⟨none, ?_, nofun, fun _ r hr => ?_⟩
    · rw [PropIndex.find, hhash]
      rfl
    · rw [hnil] at hr
      cases hr
  · have hpos : 0 < 2 ^ k := Nat.two_pow_pos k
    have hslots : ix.hash.length / 4 = 2 ^ k := by
      rw [hlen]
      omega
    let start := nameHash (utf8 name) % 2 ^ k
    have hstart : start < 2 ^ k := Nat.mod_lt _ hpos
    have hfind : ix.find name = seek (2 ^ k) (view hash)
        (fun o => decide (names o = utf8 name)) (2 ^ k) start := by
      rw [PropIndex.find, hslots]
      simp only [Nat.ne_of_gt hpos, ↓reduceIte, Nat.and_two_pow_sub_one_eq_mod]
      exact h.findLoop_eq hbytes hfilled hnames (utf8 name) hstart
    obtain ⟨s₀, hs₀, hfree₀⟩ := exists_free hroom hfilled.values hfilled.once
    obtain ⟨i, hfree⟩ := exists_firstFree hs₀ hfree₀ start
    obtain ⟨found, hseek, hsome, hnone⟩ :=
      seek_spec (fun o => decide (names o = utf8 name)) hstart hfree hfree.lt
    refine ⟨found, hfind.trans hseek, fun o ho => ?_, fun hmiss r hr heq => ?_⟩
    · obtain ⟨hhit, s, hs, hview⟩ := hsome o ho
      have hlt : o < sorted.length := hfilled.values s hs o hview
      have hr : sorted[o]? = some sorted[o] := List.getElem?_eq_getElem hlt
      rw [decide_eq_true_eq, hnames o _ hr] at hhit
      exact ⟨_, hr, utf8_inj hhit⟩
    · -- The record is in the table, on the way to the first free slot.
      obtain ⟨o, ho, rfl⟩ := List.getElem_of_mem hr
      have hname : names o = utf8 name := by
        rw [hnames o _ (List.getElem?_eq_getElem ho), heq]
      obtain ⟨s, hs, hview⟩ := hfilled.all o ho
      have hhome : home names (2 ^ k) o = start := by
        rw [home, hname]
      obtain ⟨j, hj, hslot⟩ := hfilled.probed.lt_firstFree hs hview (hhome ▸ hfree)
      have hno := hnone hmiss j hj o (hhome ▸ hslot)
      rw [hname, decide_eq_false_iff_not] at hno
      exact hno rfl

theorem find?_eq {records : List Record} (hperm : sorted.Perm records) {r : Record}
    (hr : r ∈ sorted) : records.find? (fun x => decide (x.name = r.name)) = some r := by
  cases hfind : records.find? (fun x => decide (x.name = r.name)) with
  | none =>
    have hno := List.find?_eq_none.mp hfind r (hperm.mem_iff.mp hr)
    rw [decide_eq_true_eq] at hno
    exact absurd rfl hno
  | some r' =>
    have hname := List.find?_some hfind
    rw [decide_eq_true_eq] at hname
    have hmem := hperm.mem_iff.mpr (List.mem_of_find?_eq_some hfind)
    exact congrArg some (h.name_inj hmem hr hname)

theorem bind_find_eq {records : List Record} (hperm : sorted.Perm records) {β : Type}
    {field : ℕ → Option β} {f : Record → β}
    (hfield : ∀ {o r}, sorted[o]? = some r → field o = some (f r)) (name : String) :
    (do match ← ix.find name with
        | none => return none
        | some o => return some (← field o) : Option (Option β)) =
      some ((records.find? (fun r => decide (r.name = name))).map f) := by
  obtain ⟨found, hfind, hsome, hnone⟩ := h.find_spec name
  rw [hfind]
  cases found with
  | none =>
    have hmiss : records.find? (fun r => decide (r.name = name)) = none := by
      rw [List.find?_eq_none]
      intro r hr
      rw [decide_eq_true_eq]
      exact hnone rfl r (hperm.mem_iff.mpr hr)
    rw [hmiss]
    rfl
  | some o =>
    obtain ⟨r, hr, rfl⟩ := hsome o rfl
    rw [h.find?_eq hperm (List.mem_of_getElem? hr)]
    simp only [Option.bind_eq_bind, Option.bind_some, hfield hr]
    rfl

/-- **`get`** returns the definition of the record with the name. -/
theorem get_eq {records : List Record} (hperm : sorted.Perm records) (name : String) :
    ix.get name =
      some ((records.find? (fun r => decide (r.name = name))).map Record.definition) :=
  h.bind_find_eq hperm h.definition_eq name

/-- **`id_of`** returns its id. -/
theorem idOf_eq {records : List Record} (hperm : sorted.Perm records) (name : String) :
    ix.idOf name =
      some ((records.find? (fun r => decide (r.name = name))).map (·.definition.id)) :=
  h.bind_find_eq hperm h.idAt_eq name

/-! ### In order -/

/-- **`iter`** yields the records in the order of their names. -/
theorem iter_eq : ix.iter = some (sorted.map fun r => (r.name, r.definition)) := by
  rw [PropIndex.iter, h.len, List.range_eq_range']
  refine mapM_range' fun j r hr => ?_
  rw [Nat.zero_add]
  exact h.entry_eq hr

end Represents

/-! ### By id -/

theorem partitionLoop_eq {pred : ℕ → Option Bool} {len k : ℕ}
    (hpred : ∀ i < len, pred i = some (decide (i < k))) {fuel lo hi : ℕ} (hlo : lo ≤ k)
    (hk : k ≤ hi) (hhi : hi ≤ len) (hfuel : hi - lo < fuel) :
    partitionLoop pred fuel lo hi = some k := by
  induction fuel generalizing lo hi with
  | zero => omega
  | succ fuel ih =>
    rw [partitionLoop]
    by_cases hlt : lo < hi
    · have hmid := hpred (lo + (hi - lo) / 2) (by omega)
      simp only [hlt, ↓reduceIte, hmid, Option.bind_eq_bind, Option.bind_some, decide_eq_true_eq]
      split_ifs with hbefore
      · exact ih (by omega) hk hhi (by omega)
      · exact ih hlo (by omega) (by omega) (by omega)
    · rw [if_neg hlt]
      exact congrArg some (by omega)

/-- **`partition_point`** finds where a predicate turns from true to false. -/
theorem partitionPoint_eq {pred : ℕ → Option Bool} {len k : ℕ} (hk : k ≤ len)
    (hpred : ∀ i < len, pred i = some (decide (i < k))) : partitionPoint len pred = some k :=
  partitionLoop_eq hpred (Nat.zero_le k) hk le_rfl (by omega)

theorem map_filter_range {α : Type} (l : List α) (p : Option α → Bool) :
    ((List.range l.length).filter fun o => p l[o]?).map (fun o => l[o]?) =
      (l.filter fun x => p (some x)).map some := by
  have hall : (List.range l.length).map (fun o => l[o]?) = l.map some := by
    refine List.ext_getElem? fun i => ?_
    rw [List.getElem?_map, List.getElem?_map]
    by_cases hi : i < l.length
    · rw [List.getElem?_range hi, List.getElem?_eq_getElem hi]
      simp only [Option.map_some, List.getElem?_eq_getElem hi]
    · rw [List.getElem?_eq_none (by rw [List.length_range]; omega),
        List.getElem?_eq_none (by omega)]
      rfl
  have h := congrArg (List.filter p) hall
  rw [List.filter_map, List.filter_map] at h
  exact h

/-- The id of the record with an ordinal. -/
def idKey (sorted : List Record) (o : ℕ) : ℤ :=
  ((sorted[o]?).map fun r => r.definition.id.toInt).getD 0

theorem idKey_eq {sorted : List Record} {o : ℕ} {r : Record} (hr : sorted[o]? = some r) :
    idKey sorted o = r.definition.id.toInt := by
  rw [idKey, hr]
  rfl

/-- The ordinals where the table has them: those of the records with a smaller id, of those with the
id, and of those with a larger id. -/
structure IdSplit (ix : PropIndex) (sorted : List Record) (id : Int32) (less equal more : List ℕ) :
    Prop where
  /-- They are in the table, in this order. -/
  ordinal : ∀ k o, (less ++ (equal ++ more))[k]? = some o → ix.ordinalById k = some o
  /-- Each is that of a record. -/
  record : ∀ o ∈ less ++ (equal ++ more), ∃ r, sorted[o]? = some r
  /-- They are all. -/
  length : (less ++ (equal ++ more)).length = sorted.length
  /-- The first have smaller ids. -/
  less_lt : ∀ o ∈ less, ∀ r, sorted[o]? = some r → r.definition.id < id
  /-- The next have the id. -/
  equal_eq : ∀ o ∈ equal, ∀ r, sorted[o]? = some r → r.definition.id = id
  /-- The last have larger ids. -/
  more_gt : ∀ o ∈ more, ∀ r, sorted[o]? = some r → id < r.definition.id
  /-- Those with the id are in the order of the records. -/
  found : equal.map (fun o => sorted[o]?) =
    (sorted.filter fun r => decide (r.definition.id = id)).map some

/-- In a table in the order of the ids and of the ordinals where these are equal, the ordinals of
the records with an id are in their own order. -/
theorem filter_order_eq {sorted : List Record} {order : List ℕ}
    (hperm : order.Perm (List.range sorted.length))
    (hpairwise : order.Pairwise fun a b => ∀ r r', sorted[a]? = some r → sorted[b]? = some r' →
      r.definition.id < r'.definition.id ∨ r.definition.id = r'.definition.id ∧ a ≤ b) (t : ℤ) :
    order.filter (fun a => decide (idKey sorted a = t)) =
      (List.range sorted.length).filter fun a => decide (idKey sorted a = t) := by
  have hordinals : (order.filter fun a => decide (idKey sorted a = t)).Pairwise (· ≤ ·) := by
    refine (hpairwise.filter _).imp_of_mem fun {a b} ha hb hab => ?_
    obtain ⟨hao, ha⟩ := List.mem_filter.mp ha
    obtain ⟨hbo, hb⟩ := List.mem_filter.mp hb
    have hlta : a < sorted.length := List.mem_range.mp (hperm.mem_iff.mp hao)
    have hltb : b < sorted.length := List.mem_range.mp (hperm.mem_iff.mp hbo)
    have hra := List.getElem?_eq_getElem hlta
    have hrb := List.getElem?_eq_getElem hltb
    rw [decide_eq_true_eq, idKey_eq hra] at ha
    rw [decide_eq_true_eq, idKey_eq hrb] at hb
    rcases hab _ _ hra hrb with hlt | ⟨-, hle⟩
    · have := Int32.lt_iff_toInt_lt.mp hlt
      omega
    · exact hle
  exact List.Perm.eq_of_pairwise (fun _ _ _ _ => Nat.le_antisymm) hordinals
    (List.pairwise_le_range.filter _) (hperm.filter _)

theorem Represents.exists_idSplit {ix : PropIndex} {sorted : List Record} (h : Represents ix sorted)
    (id : Int32) : ∃ less equal more, IdSplit ix sorted id less equal more := by
  obtain ⟨order, hperm, hpairwise, htable⟩ := h.order
  have hrecord : ∀ o ∈ order, ∃ r, sorted[o]? = some r := by
    intro o ho
    have hlt : o < sorted.length := List.mem_range.mp (hperm.mem_iff.mp ho)
    exact ⟨_, List.getElem?_eq_getElem hlt⟩
  have hsorted : order.Pairwise fun a b => idKey sorted a ≤ idKey sorted b := by
    refine hpairwise.imp_of_mem fun {a b} ha hb hab => ?_
    obtain ⟨r, hr⟩ := hrecord a ha
    obtain ⟨r', hr'⟩ := hrecord b hb
    rw [idKey_eq hr, idKey_eq hr']
    rcases hab r r' hr hr' with hlt | ⟨heq, -⟩
    · exact (Int32.lt_iff_toInt_lt.mp hlt).le
    · rw [heq]
  have hsplit := Sorting.eq_filter_append hsorted id.toInt
  refine ⟨order.filter fun a => decide (idKey sorted a < id.toInt),
    order.filter fun a => decide (idKey sorted a = id.toInt),
    order.filter fun a => decide (id.toInt < idKey sorted a), ?_⟩
  constructor
  case ordinal => exact hsplit ▸ htable
  case record => exact hsplit ▸ hrecord
  case length => rw [← hsplit, hperm.length_eq, List.length_range]
  case less_lt =>
    intro o ho r hr
    have hlt := (List.mem_filter.mp ho).2
    rw [decide_eq_true_eq, idKey_eq hr] at hlt
    exact Int32.lt_iff_toInt_lt.mpr hlt
  case equal_eq =>
    intro o ho r hr
    have heq := (List.mem_filter.mp ho).2
    rw [decide_eq_true_eq, idKey_eq hr] at heq
    exact Int32.toInt_inj.mp heq
  case more_gt =>
    intro o ho r hr
    have hlt := (List.mem_filter.mp ho).2
    rw [decide_eq_true_eq, idKey_eq hr] at hlt
    exact Int32.lt_iff_toInt_lt.mpr hlt
  case found =>
    rw [filter_order_eq hperm hpairwise]
    have hfilter := map_filter_range sorted fun r =>
      decide ((r.map fun r => r.definition.id.toInt).getD 0 = id.toInt)
    refine hfilter.trans (congrArg (List.map some) (List.filter_congr fun r _ => ?_))
    simp only [Option.map_some, Option.getD_some, Int32.toInt_inj]

namespace IdSplit

variable {ix : PropIndex} {sorted : List Record} {id : Int32} {less equal more : List ℕ}
  (hs : IdSplit ix sorted id less equal more) (h : Represents ix sorted)
include hs h

theorem border (p : Int32 → Prop) [DecidablePred p] {first second : List ℕ}
    (hsplit : less ++ (equal ++ more) = first ++ second)
    (hfirst : ∀ o ∈ first, ∀ r, sorted[o]? = some r → p r.definition.id)
    (hsecond : ∀ o ∈ second, ∀ r, sorted[o]? = some r → ¬ p r.definition.id) :
    partitionPoint ix.len (fun k => do
      let other ← ix.idById k
      return decide (p other)) = some first.length := by
  refine partitionPoint_eq ?_ fun k hk => ?_
  · rw [h.len, ← hs.length, hsplit, List.length_append]
    exact Nat.le_add_right _ _
  · rw [h.len, ← hs.length] at hk
    obtain ⟨o, ho⟩ : ∃ o, (less ++ (equal ++ more))[k]? = some o :=
      ⟨_, List.getElem?_eq_getElem hk⟩
    obtain ⟨r, hr⟩ := hs.record o (List.mem_of_getElem? ho)
    have hid : ix.idById k = some r.definition.id := by
      rw [PropIndex.idById, hs.ordinal k o ho]
      exact h.idAt_eq hr
    have hdecide : decide (p r.definition.id) = decide (k < first.length) := by
      rw [hsplit] at ho
      by_cases hlt : k < first.length
      · rw [List.getElem?_append_left hlt] at ho
        simp only [hlt, hfirst o (List.mem_of_getElem? ho) r hr]
      · rw [List.getElem?_append_right (Nat.not_lt.mp hlt)] at ho
        simp only [hlt, hsecond o (List.mem_of_getElem? ho) r hr]
    rw [hid]
    exact congrArg some hdecide

theorem start_eq : partitionPoint ix.len (fun k => do
    let other ← ix.idById k
    return decide (other < id)) = some less.length := by
  refine hs.border h (· < id) rfl hs.less_lt fun o ho r hr hlt => ?_
  rcases List.mem_append.mp ho with ho | ho
  · exact Int32.lt_irrefl (hs.equal_eq o ho r hr ▸ hlt)
  · exact Int32.lt_irrefl (Int32.lt_trans hlt (hs.more_gt o ho r hr))

theorem stop_eq : partitionPoint ix.len (fun k => do
    let other ← ix.idById k
    return decide (other ≤ id)) = some (less ++ equal).length := by
  refine hs.border h (· ≤ id) (List.append_assoc _ _ _).symm (fun o ho r hr => ?_)
    fun o ho r hr hle => ?_
  · rcases List.mem_append.mp ho with ho | ho
    · exact Int32.le_of_lt (hs.less_lt o ho r hr)
    · exact Int32.le_of_eq (hs.equal_eq o ho r hr)
  · exact Int32.lt_irrefl (Int32.lt_of_lt_of_le (hs.more_gt o ho r hr) hle)

theorem entries_eq : (List.range' less.length equal.length).mapM
    (fun k => do ix.entry (← ix.ordinalById k)) =
      some ((sorted.filter fun r => decide (r.definition.id = id)).map
        fun r => (r.name, r.definition)) := by
  have hcount := congrArg List.length hs.found
  rw [List.length_map, List.length_map] at hcount
  rw [hcount]
  refine mapM_range' fun j r hr => ?_
  have hmap : (equal.map fun o => sorted[o]?)[j]? = some (some r) := by
    rw [hs.found, List.getElem?_map, hr]
    rfl
  rw [List.getElem?_map, Option.map_eq_some_iff] at hmap
  obtain ⟨o, ho, hr'⟩ := hmap
  have hlt : j < equal.length := (List.getElem?_eq_some_iff.mp ho).1
  have hplaced : (less ++ (equal ++ more))[less.length + j]? = some o := by
    rw [List.getElem?_append_right (Nat.le_add_right _ _), Nat.add_sub_cancel_left,
      List.getElem?_append_left hlt, ho]
  rw [hs.ordinal _ o hplaced]
  exact h.entry_eq hr'

end IdSplit

/-- **`by_id`** yields the records with the id, in the order of their names. -/
theorem Represents.byId_eq {ix : PropIndex} {sorted : List Record} (h : Represents ix sorted)
    (id : Int32) :
    ix.byId id = some (
      match sorted.filter fun r => decide (r.definition.id = id) with
      | [] => none
      | r :: rs => some ((r :: rs).map fun r => (r.name, r.definition))) := by
  obtain ⟨less, equal, more, hs⟩ := h.exists_idSplit id
  have hlen : (less ++ equal).length - less.length = equal.length := by
    rw [List.length_append, Nat.add_sub_cancel_left]
  have hcount := congrArg List.length hs.found
  rw [List.length_map, List.length_map] at hcount
  rw [PropIndex.byId, hs.start_eq h, Option.bind_eq_bind, Option.bind_some, hs.stop_eq h,
    Option.bind_eq_bind, Option.bind_some, hlen, hs.entries_eq h]
  cases hfound : sorted.filter fun r => decide (r.definition.id = id) with
  | nil =>
    rw [hfound] at hcount
    rw [if_neg (by rw [List.length_append, hcount]; exact Nat.lt_irrefl _)]
    rfl
  | cons r rs =>
    rw [hfound, List.length_cons] at hcount
    rw [if_pos (by rw [List.length_append]; omega)]
    rfl

end LibWing
