import Mathlib.Data.String.Basic

/-!
# Paths

Strings of segments between slashes.

* `splitOn_slash` : the segments of a path; `splitOn_slash_append`, `splitOn_slash_inj`,
  `exists_splitOn_eq` : they determine it, and go together as paths do;
* `stripPrefix`, `stripSuffix`, `startsWith` : taking strings apart;
* `Leads p s` : the segments of `p` are the first of those of `s`;
* `Longest` : the longest of some paths that lead to a path, and `maxByKey`, which finds it.
-/

namespace Path

theorem splitOnAux_slash (s : String) (b i : String.Pos.Raw) (r : List String) :
    s.splitOnAux "/" b i 0 r = s.splitAux (· == '/') b i r := by
  induction b, i, r using String.splitAux.induct s (· == '/') with
  | case1 b i r hend =>
    rw [String.splitOnAux, String.splitAux]
    simp [hend]
  | case2 b i r hend hlt hget i' ih =>
    have hc : i.get s = '/' := beq_iff_eq.mp hget
    -- A slash is one byte, so the piece before it ends where it begins.
    have hback : (i.next s).unoffsetBy (String.Pos.Raw.next "/" 0) = i := by
      simp only [String.Pos.Raw.next, hc]
      rfl
    rw [String.splitOnAux, String.splitAux, if_neg hend, dif_neg hend, if_pos hget]
    have hslash : ('/' == String.Pos.Raw.get "/" 0) = true := by decide
    have hlast : String.Pos.Raw.atEnd "/" (String.Pos.Raw.next "/" 0) = true := by decide
    simp only [hc, hslash, hlast, if_true, hback]
    exact ih
  | case3 b i r hend hlt hget ih =>
    have hc : ¬ (i.get s == String.Pos.Raw.get "/" 0) = true := hget
    rw [String.splitOnAux, String.splitAux, if_neg hend, dif_neg hend, if_neg hget, if_neg hc]
    exact ih

/-- The segments of a path. -/
theorem splitOn_slash (s : String) :
    s.splitOn "/" = (s.toList.splitOnP (· == '/')).map String.ofList := by
  have hsep : ("/" == "") = false := by decide
  rw [String.splitOn, hsep, splitOnAux_slash]
  exact String.splitToList_of_valid s _

/-- The segments of two paths with a slash between them. -/
theorem splitOn_slash_append (a b : String) :
    (a ++ ("/" ++ b)).splitOn "/" = a.splitOn "/" ++ b.splitOn "/" := by
  have hchars : (a ++ ("/" ++ b)).toList = a.toList ++ '/' :: b.toList := by simp
  rw [splitOn_slash, splitOn_slash, splitOn_slash, hchars, List.splitOnP_append_cons _ _ rfl,
    List.map_append]

theorem splitOn_slash_ne_nil (s : String) : s.splitOn "/" ≠ [] := by
  rw [splitOn_slash]
  simp [List.splitOnP_ne_nil]

/-- A path is known by its segments. -/
theorem splitOn_slash_inj {a b : String} (h : a.splitOn "/" = b.splitOn "/") : a = b := by
  rw [splitOn_slash, splitOn_slash, ← List.splitOn_eq_splitOnP, ← List.splitOn_eq_splitOnP] at h
  have hchars := List.map_injective_iff.2 (fun _ _ => String.ofList_injective) h
  have ha : ['/'].intercalate (a.toList.splitOn '/') = a.toList := List.intercalate_splitOn '/'
  rw [← String.toList_inj, ← ha, hchars, List.intercalate_splitOn]

theorem eq_false_of_mem_splitOnP {α : Type} {p : α → Bool} {l piece : List α}
    (h : piece ∈ l.splitOnP p) : ∀ a ∈ piece, p a = false := by
  induction l generalizing piece with
  | nil =>
    rw [List.splitOnP_nil, List.mem_singleton] at h
    rw [h]
    exact fun _ ha => (by cases ha)
  | cons x l ih =>
    rw [List.splitOnP_cons_eq_if_modifyHead] at h
    split_ifs at h with hx
    · rcases List.mem_cons.mp h with rfl | h
      · exact fun _ ha => (by cases ha)
      · exact ih h
    · cases hpieces : l.splitOnP p with
      | nil => exact absurd hpieces (List.splitOnP_ne_nil p l)
      | cons first rest =>
        rw [hpieces, List.modifyHead_cons] at h
        rcases List.mem_cons.mp h with rfl | h
        · intro a ha
          rcases List.mem_cons.mp ha with rfl | ha
          · simpa using hx
          · exact ih (by rw [hpieces]; exact List.mem_cons_self) a ha
        · exact ih (by rw [hpieces]; exact List.mem_cons_of_mem _ h)

/-- There is no slash in a segment. -/
theorem slash_notMem_of_mem_splitOn {s segment : String} (h : segment ∈ s.splitOn "/") :
    '/' ∉ segment.toList := by
  rw [splitOn_slash] at h
  obtain ⟨piece, hpiece, rfl⟩ := List.mem_map.mp h
  rw [String.toList_ofList]
  intro hslash
  exact absurd (eq_false_of_mem_splitOnP hpiece '/' hslash) (by decide)

/-- Segments are those of a path. -/
theorem exists_splitOn_eq {segments : List String} (hne : segments ≠ [])
    (h : ∀ segment ∈ segments, '/' ∉ segment.toList) : ∃ s : String, s.splitOn "/" = segments := by
  refine ⟨String.ofList (['/'].intercalate (segments.map String.toList)), ?_⟩
  rw [splitOn_slash, String.toList_ofList, ← List.splitOn_eq_splitOnP,
    List.splitOn_intercalate _ (by simpa using h) (by simpa using hne), List.map_map]
  exact (List.map_congr_left fun segment _ => String.ofList_toList).trans (List.map_id segments)

/-! ### Cutting strings -/

/-- What follows `p` in `s`. -/
def stripPrefix (p s : String) : Option String :=
  if p.toList.isPrefixOf s.toList then some (String.ofList (s.toList.drop p.toList.length))
  else none

/-- What precedes `p` in `s`. -/
def stripSuffix (p s : String) : Option String :=
  if p.toList.isSuffixOf s.toList then
    some (String.ofList (s.toList.take (s.toList.length - p.toList.length)))
  else none

/-- Whether `s` starts with `p`. -/
def startsWith (p s : String) : Bool := p.toList.isPrefixOf s.toList

theorem eq_append_iff {s a b : String} : s = a ++ b ↔ s.toList = a.toList ++ b.toList := by
  rw [← String.toList_inj, String.toList_append]

@[simp] theorem stripPrefix_eq_some {p s r : String} : stripPrefix p s = some r ↔ s = p ++ r := by
  rw [eq_append_iff, stripPrefix]
  by_cases h : p.toList.isPrefixOf s.toList = true
  · rw [if_pos h]
    obtain ⟨x, hx⟩ := List.isPrefixOf_iff_prefix.mp h
    rw [← hx, List.drop_left, Option.some.injEq, List.append_cancel_left_eq, ← String.toList_inj,
      String.toList_ofList]
  · rw [if_neg h]
    refine ⟨nofun, fun heq => absurd ?_ h⟩
    exact List.isPrefixOf_iff_prefix.mpr ⟨r.toList, heq.symm⟩

@[simp] theorem stripSuffix_eq_some {p s r : String} : stripSuffix p s = some r ↔ s = r ++ p := by
  rw [eq_append_iff, stripSuffix]
  by_cases h : p.toList.isSuffixOf s.toList = true
  · rw [if_pos h]
    obtain ⟨x, hx⟩ := List.isSuffixOf_iff_suffix.mp h
    rw [← hx, List.length_append, Nat.add_sub_cancel, List.take_left, Option.some.injEq,
      List.append_cancel_right_eq, ← String.toList_inj, String.toList_ofList]
  · rw [if_neg h]
    refine ⟨nofun, fun heq => absurd ?_ h⟩
    exact List.isSuffixOf_iff_suffix.mpr ⟨r.toList, heq.symm⟩

@[simp] theorem startsWith_iff {p s : String} : startsWith p s = true ↔ ∃ r, s = p ++ r := by
  rw [startsWith, List.isPrefixOf_iff_prefix]
  refine ⟨fun ⟨x, hx⟩ => ⟨String.ofList x, ?_⟩, fun ⟨r, hr⟩ => ⟨r.toList, ?_⟩⟩
  · rw [eq_append_iff, String.toList_ofList, hx]
  · rw [eq_append_iff.mp hr]

/-! ### Leading segments -/

/-- The segments of `p` are the first of those of `s`. -/
def Leads (p s : String) : Prop := s = p ∨ ∃ r, s = p ++ ("/" ++ r)

/-- Of two paths above a third, one leads to the other. -/
theorem above_cases {p q r t : String} (h : p ++ ("/" ++ r) = q ++ ("/" ++ t)) :
    Leads p q ∨ ∃ x, p = q ++ ("/" ++ x) := by
  simp only [Leads, eq_append_iff, String.toList_append] at h ⊢
  have hslash : "/".toList = ['/'] := rfl
  simp only [hslash, List.singleton_append] at h ⊢
  rw [← String.toList_inj]
  rcases List.append_eq_append_iff.mp h with ⟨x, hq, hr⟩ | ⟨x, hp, ht⟩
  · cases x with
    | nil => exact Or.inl (Or.inl (by rw [hq, List.append_nil]))
    | cons c x =>
      obtain ⟨rfl, -⟩ := List.cons.inj hr
      exact Or.inl (Or.inr ⟨String.ofList x, by rw [hq, String.toList_ofList]⟩)
  · cases x with
    | nil => exact Or.inl (Or.inl (by rw [hp, List.append_nil]))
    | cons c x =>
      obtain ⟨rfl, -⟩ := List.cons.inj ht
      exact Or.inr ⟨String.ofList x, by rw [hp, String.toList_ofList]⟩

/-- The last segment of a path, and what is above it. -/
theorem last_segment {p q r t : String} (hr : '/' ∉ r.toList) (ht : '/' ∉ t.toList)
    (h : p ++ ("/" ++ r) = q ++ ("/" ++ t)) : p = q ∧ r = t := by
  rcases above_cases h with (rfl | ⟨x, rfl⟩) | ⟨x, rfl⟩
  · rw [← String.toList_inj] at h
    simp only [String.toList_append, List.append_cancel_left_eq] at h
    exact ⟨rfl, String.toList_inj.mp h⟩
  all_goals
    exfalso
    rw [← String.toList_inj] at h
    simp only [String.toList_append, List.append_assoc, List.append_cancel_left_eq] at h
  · exact hr (by rw [h]; simp)
  · exact ht (by rw [← h]; simp)

/-- A number is a single segment. -/
theorem slash_notMem_toDigits (n : ℕ) : '/' ∉ Nat.toDigits 10 n := by
  intro h
  have := Nat.isDigit_of_mem_toDigits (by omega) (by omega) h
  exact absurd this (by decide)

/-- The longest of the paths that lead to `s`. -/
structure Longest (paths : List String) (s p : String) : Prop where
  /-- It is one of the paths. -/
  mem : p ∈ paths
  /-- It leads to `s`. -/
  leads : Leads p s
  /-- No other one that does is longer. -/
  le : ∀ q ∈ paths, Leads q s → q.utf8ByteSize ≤ p.utf8ByteSize

theorem Leads.isPrefix {p s : String} (h : Leads p s) : ∃ r, s = p ++ r := by
  rcases h with rfl | ⟨r, rfl⟩
  · exact ⟨"", String.append_empty.symm⟩
  · exact ⟨_, rfl⟩

/-- Only a single segment itself leads to it. -/
theorem Leads.eq_of_not_mem {p s : String} (h : Leads p s) (hs : '/' ∉ s.toList) : s = p := by
  rcases h with rfl | ⟨r, rfl⟩
  · rfl
  · simp at hs

/-- There is only one. -/
theorem Longest.unique {paths : List String} {s p q : String} (hp : Longest paths s p)
    (hq : Longest paths s q) : p = q := by
  have hsize := Nat.le_antisymm (hq.le p hp.mem hp.leads) (hp.le q hq.mem hq.leads)
  obtain ⟨x, hx⟩ := hp.leads.isPrefix
  obtain ⟨y, hy⟩ := hq.leads.isPrefix
  have hlists : p.toList ++ x.toList = q.toList ++ y.toList := by
    rw [← eq_append_iff.mp hx, ← eq_append_iff.mp hy]
  -- One of them starts with the other, and is no longer.
  have hsame : ∀ {a b : String} {z : List Char}, a.utf8ByteSize = b.utf8ByteSize →
      b.toList = a.toList ++ z → a = b := by
    intro a b z hab hz
    have hb : b = a ++ String.ofList z := by
      rw [eq_append_iff, String.toList_ofList, hz]
    have hnil : (String.ofList z).utf8ByteSize = 0 := by
      rw [hb, String.utf8ByteSize_append] at hab
      omega
    rw [String.utf8ByteSize_eq_zero_iff] at hnil
    rw [hb, hnil, String.append_empty]
  rcases List.append_eq_append_iff.mp hlists with ⟨z, hz, -⟩ | ⟨z, hz, -⟩
  · exact hsame hsize hz
  · exact (hsame hsize.symm hz).symm

/-! ### The greatest key -/

/-- The last of the elements with the greatest key. -/
def maxByKey {α : Type} (key : α → ℕ) : List α → Option α
  | [] => none
  | a :: l => some (l.foldl (fun best x => if key best ≤ key x then x else best) a)

theorem maxByKey_spec {α : Type} {key : α → ℕ} {l : List α} {a : α} (h : maxByKey key l = some a) :
    a ∈ l ∧ ∀ b ∈ l, key b ≤ key a := by
  cases l with
  | nil => cases h
  | cons a₀ l =>
    obtain rfl := Option.some.inj h
    clear h
    induction l generalizing a₀ with
    | nil => simp
    | cons x l ih =>
      rw [List.foldl_cons]
      obtain ⟨hmem, hle⟩ := ih (if key a₀ ≤ key x then x else a₀)
      have hbest : key a₀ ≤ key (if key a₀ ≤ key x then x else a₀) ∧
          key x ≤ key (if key a₀ ≤ key x then x else a₀) := by
        split_ifs with hc
        · exact ⟨hc, le_rfl⟩
        · exact ⟨le_rfl, (Nat.not_le.mp hc).le⟩
      have hfirst := hle _ List.mem_cons_self
      refine ⟨?_, fun b hb => ?_⟩
      · rcases List.mem_cons.mp hmem with heq | hmem
        · rw [heq]
          split_ifs with hc
          · exact List.mem_cons_of_mem _ List.mem_cons_self
          · exact List.mem_cons_self
        · exact List.mem_cons_of_mem _ (List.mem_cons_of_mem _ hmem)
      · rcases List.mem_cons.mp hb with rfl | hb
        · exact hbest.1.trans hfirst
        · rcases List.mem_cons.mp hb with rfl | hb
          · exact hbest.2.trans hfirst
          · exact hle b (List.mem_cons_of_mem _ hb)

theorem maxByKey_eq_none {α : Type} {key : α → ℕ} {l : List α} :
    maxByKey key l = none ↔ l = [] := by
  cases l with
  | nil => exact ⟨fun _ => rfl, fun _ => rfl⟩
  | cons a l => exact ⟨nofun, nofun⟩

end Path
