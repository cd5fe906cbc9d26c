import LibWing.Session.Sweep

/-!
# What a dump carries

A dump has what its restore needs: with every entry, the selectors that govern it, and a restore
writes these first.

* `Governs` : a selector governs a path;
* `Dumped.selector_entry` : the selectors that govern an entry are in the dump, with the item whose
  branch the entry is in;
* `sublist_restoreOrder` : a restore writes them from the outermost to the innermost, and then the
  entry;
* `dumpSubtree_carries` : both, for every dump.
-/

namespace LibWing

open Interleave Prog

namespace Session

/-- A writable selector at or under the root governs a path: the path is in the branch of the
item. -/
structure Governs (map : PropertyMap) (root parent item path : String) : Prop where
  /-- The path is in the branch of the item of a writable selector. -/
  selector : ∃ d, map.Selector parent d ∧ d.readOnly = false ∧ InBranch parent d item path
  /-- The selector is at or under the root. -/
  inside : Path.Leads root (parent ++ "/mdl")

/-! ### The selectors are in the dump -/

/-- A selector that was read is allowed by all active models: by those read before it, and those
read after it are no higher. -/
theorem Dumped.allows_active {map : PropertyMap} {root : String} {dump : NodeDump} {sweep : Sweep}
    (h : Dumped map root dump sweep) (hcoherent : map.Coherent) {m m' : ActiveModel}
    (hm : m ∈ sweep.activeModels) (hm' : m' ∈ sweep.activeModels) : m'.allows m.path = true := by
  refine ActiveModel.allows_iff.mpr fun item hin => ?_
  have hown : m.parent ≠ m'.parent := by
    intro heq
    rw [ActiveModel.path, heq] at hin
    exact hcoherent.own (h.selector hm') hin
  obtain ⟨i, hi, rfl⟩ := List.getElem_of_mem hm
  obtain ⟨j, hj, rfl⟩ := List.getElem_of_mem hm'
  have hpairs := List.pairwise_iff_getElem.mp h.swept.inOrder
  rcases Nat.lt_trichotomy j i with hlt | rfl | hlt
  · exact ActiveModel.allows_iff.mp (hpairs j i hj hi hlt).1 item hin
  · exact absurd rfl hown
  · exact absurd (hin.eq_of_depth (hpairs i j hi hj hlt).2) hown

/-- **The selectors that govern an entry are in the dump**, and name the branch the entry is in. -/
theorem Dumped.selector_entry {map : PropertyMap} {root : String} {dump : NodeDump} {sweep : Sweep}
    (h : Dumped map root dump sweep) (hcoherent : map.Coherent) {e : DumpEntry}
    (he : e ∈ dump.entries) {parent item : String}
    (hgov : Governs map root parent item e.fullname) :
    ∃ s ∈ dump.entries, s.fullname = parent ++ "/mdl" ∧ s.value = .string item := by
  obtain ⟨d, hsel, hrw, hin⟩ := hgov.selector
  obtain ⟨m, hm, hname, rfl, hselected⟩ := h.selected hcoherent he hsel hin
  have hleaf : (parent ++ "/mdl", m.definition.id) ∈ dumpableLeaves map root := by
    refine mem_dumpableLeaves.mpr ⟨m.definition, hsel.mem, ?_, hrw, hgov.inside, rfl⟩
    rw [hsel.stringEnum]
    exact nofun
  have hentry : (parent ++ "/mdl", m.definition.id) ∈
      dump.entries.map fun e => (e.fullname, e.id) := by
    rw [h.leaves]
    refine List.mem_filter.mpr ⟨hleaf, ?_⟩
    rw [pathMatchesActiveModels, List.all_eq_true]
    intro m' hm'
    rw [← hname]
    exact h.allows_active hcoherent hm hm'
  obtain ⟨s, hs, heq⟩ := List.mem_map.mp hentry
  have hfull : s.fullname = parent ++ "/mdl" := congrArg Prod.fst heq
  refine ⟨s, hs, hfull, ?_⟩
  have hvalue := h.values s hs m.selected (by rw [hfull, ← hname]; exact h.swept.value m hm)
  rw [hvalue, hselected]

/-! ### The order of a restore -/

theorem isSelector_below {parent relative : String} (h : '/' ∉ relative.toList) :
    isSelector (parent ++ ("/" ++ relative)) = decide (relative = "mdl") := by
  have hno : ∀ c ∈ relative.toList, (c == '/') = false := by
    intro c hc
    refine beq_eq_false_iff_ne.mpr ?_
    rintro rfl
    exact h hc
  have hlist : (parent ++ ("/" ++ relative)).toList = parent.toList ++ '/' :: relative.toList := by
    simp only [String.toList_append]
    rfl
  rw [isSelector_eq, hlist, List.splitOnP_append_cons _ _ rfl, List.splitOnP_eq_singleton hno,
    List.getLast?_concat]
  refine decide_eq_decide.mpr ?_
  rw [Option.some_inj, ← String.toList_inj]
  rfl

theorem restoreOrderKey_selector (parent : String) :
    restoreOrderKey (parent ++ "/mdl") = (false, depth (parent ++ "/mdl")) := by
  have hsel : isSelector (parent ++ "/mdl") = true := @isSelector_below parent "mdl" (by decide)
  rw [restoreOrderKey, hsel]
  rfl

theorem keyLe_governed {map : PropertyMap} (hcoherent : map.Coherent) {parent item path : String}
    {d : WingNodeDef} (hsel : map.Selector parent d) (hin : InBranch parent d item path) :
    ¬ keyLe (restoreOrderKey path) (restoreOrderKey (parent ++ "/mdl")) = true := by
  rw [restoreOrderKey_selector]
  cases hpath : isSelector path with
  | false => simp [restoreOrderKey, hpath, keyLe]
  | true =>
    -- It is another selector, farther down.
    have hdepth : depth (parent ++ "/mdl") < depth path := by
      refine Nat.lt_of_le_of_ne hin.depth_le fun heq => ?_
      obtain ⟨items, relative, -, rfl, -⟩ := id hin
      rw [depth, depth, count_below] at heq
      have hrelative : '/' ∉ relative.toList := by
        rw [← List.count_eq_zero]
        omega
      rw [isSelector_below hrelative, decide_eq_true_eq] at hpath
      subst hpath
      exact hcoherent.own hsel hin
    have hkey : restoreOrderKey path = (false, depth path) := by
      rw [restoreOrderKey, hpath]
      rfl
    rw [hkey]
    simpa [keyLe] using hdepth

theorem keyLe_inner {outer relative : String} :
    ¬ keyLe (restoreOrderKey (outer ++ ("/" ++ relative) ++ "/mdl"))
      (restoreOrderKey (outer ++ "/mdl")) = true := by
  have hdepth : depth (outer ++ "/mdl") < depth (outer ++ ("/" ++ relative) ++ "/mdl") := by
    have hmdl : "/mdl".toList.count '/' = 1 := by decide
    rw [depth, depth, String.toList_append (s := outer ++ ("/" ++ relative)), List.count_append,
      count_below, hmdl]
    omega
  rw [restoreOrderKey_selector, restoreOrderKey_selector]
  simpa [keyLe] using hdepth

/-- The selector of `s` is outside of that of `s'`. -/
def Outer (s s' : DumpEntry) : Prop := ∃ outer relative,
  s.fullname = outer ++ "/mdl" ∧ s'.fullname = outer ++ ("/" ++ relative) ++ "/mdl"

/-- **The selectors that govern an entry come before it**, the outer ones before the inner ones. -/
theorem sublist_restoreOrder {map : PropertyMap} (hcoherent : map.Coherent) {root : String}
    {entries chain : List DumpEntry} {e : DumpEntry} (he : e ∈ entries)
    (hchain : ∀ s ∈ chain, s ∈ entries ∧ ∃ parent item, s.fullname = parent ++ "/mdl" ∧
      Governs map root parent item e.fullname)
    (houter : chain.Pairwise Outer) : (chain ++ [e]).Sublist (restoreOrder entries) := by
  refine Sorting.sublist_of_pairwise (fun a => ?_) (restoreOrder_pairwise entries) ?_ fun a ha => ?_
  · simpa using keyLe_total (restoreOrderKey a.fullname) (restoreOrderKey a.fullname)
  · refine List.pairwise_append.mpr ⟨houter.imp ?_, List.pairwise_singleton _ _,
      fun s hs e' he' => ?_⟩
    · rintro s s' ⟨outer, relative, hs, hs'⟩
      rw [hs, hs']
      exact keyLe_inner
    · obtain ⟨-, parent, item, hname, hgov⟩ := hchain s hs
      obtain ⟨d, hsel, -, hin⟩ := hgov.selector
      rw [List.mem_singleton.mp he', hname]
      exact keyLe_governed hcoherent hsel hin
  · have hall : a ∈ entries := by
      rcases List.mem_append.mp ha with ha | ha
      · exact (hchain a ha).1
      · exact List.mem_singleton.mp ha ▸ he
    exact List.mem_mergeSort.mpr hall

theorem restore_all (t : ℕ) (readOnly : String → Bool) (entries : List DumpEntry) :
    (restore t readOnly entries).Always handedBytes fun results bytes =>
      (∀ r ∈ results, r.2 = .ok ()) → bytes = (restoreOrder entries).flatMap DumpEntry.message := by
  refine (restore_always t entries).mono ?_
  rintro results bytes ⟨r, rfl, hbatch, hr⟩ hok
  have hnone : ∀ j, ¬ r.Fails j := by
    rintro j ⟨e, he⟩
    rw [List.getElem?_map, Option.map_eq_some_iff] at he
    obtain ⟨p, hp, hp'⟩ := he
    have hgood := hok p (List.mem_of_getElem? hp)
    rw [hp'] at hgood
    cases hgood
  rcases hr with hr | ⟨before, sel, hr⟩
  · have hall := hr.all hnone
    rw [hbatch, List.map_nil, List.flatMap_nil, List.append_nil] at hall
    exact hall
  · obtain ⟨after, hafter⟩ := hr.at_sel
    refine absurd (hr.failed before.length le_rfl ?_) (hnone _)
    rw [hafter, List.length_append, List.length_cons]
    omega

/-- **A dump carries what its restore needs.**  The selectors that govern an entry are in the dump,
each with the item in whose branch the entry is.  A restore all of whose writes succeed writes the
entries in an order in which these come before the entry, the outer ones before the inner ones. -/
theorem dumpSubtree_carries (t : ℕ) (timeout : Time) (map : PropertyMap) (root : String)
    (hcoherent : map.Coherent) :
    (dumpSubtree t timeout map root).Always handedBytes fun result _ => ∀ dump, result = .ok dump →
      (∀ e ∈ dump.entries, ∀ parent item, Governs map root parent item e.fullname →
        ∃ s ∈ dump.entries, s.fullname = parent ++ "/mdl" ∧ s.value = .string item) ∧
      ∀ t', (restore t' map.readOnly dump.entries).Always handedBytes fun results bytes =>
        (∀ r ∈ results, r.2 = .ok ()) → ∃ ordered : List DumpEntry,
          ordered.Perm dump.entries ∧ bytes = ordered.flatMap DumpEntry.message ∧
          ∀ e ∈ dump.entries, ∀ chain : List DumpEntry,
            (∀ s ∈ chain, s ∈ dump.entries ∧ ∃ parent item, s.fullname = parent ++ "/mdl" ∧
              Governs map root parent item e.fullname) →
            chain.Pairwise Outer → (chain ++ [e]).Sublist ordered := by
  refine (dumpSubtree_always t timeout map root).mono fun result _ hdumped dump hdump => ?_
  obtain ⟨sweep, h⟩ := hdumped dump hdump
  refine ⟨fun e he parent item hgov => h.selector_entry hcoherent he hgov, fun t' => ?_⟩
  refine (restore_all t' map.readOnly dump.entries).mono fun results bytes hbytes hok => ?_
  exact ⟨restoreOrder dump.entries, List.mergeSort_perm _ _, hbytes hok,
    fun e he chain hchain houter => sublist_restoreOrder hcoherent he hchain houter⟩

theorem nestedModels_governs :
    Governs nestedModels "/fx" "/fx" "vocal" "/fx/vocal/x/y/p" ∧
      Governs nestedModels "/fx" "/fx/vocal" "x/y" "/fx/vocal/x/y/p" := by
  refine ⟨⟨⟨plainDef 1 .stringEnum (some ["room", "vocal"]), ⟨by decide, rfl⟩, rfl, ?_⟩, ?_⟩,
    ⟨⟨plainDef 2 .stringEnum (some ["x", "x/y"]), ⟨by decide, rfl⟩, rfl, ?_⟩, ?_⟩⟩
  · exact inBranch_iff.mpr (by decide +kernel)
  · exact Or.inr ⟨"mdl", by decide⟩
  · exact inBranch_iff.mpr (by decide +kernel)
  · exact Or.inr ⟨"vocal/mdl", by decide⟩

theorem runAlone_restore_nestedDump :
    (restore 0 nestedModels.readOnly nestedDump.entries).runAlone (.calm []) (.new 0 []) =
      some (nestedDump.entries.map fun e => (e.fullname, .ok ())) := by
  have horder : restoreOrder nestedDump.entries = nestedDump.entries := by
    refine List.mergeSort_of_pairwise ?_
    simp only [restoreOrderKey, isSelector_eq]
    decide +kernel
  simp only [restore, horder]
  simp only [nestedDump, restoreLoop, restoreEntry, isSelector_eq]
  decide +kernel

theorem nestedModels_carries :
    (∃ s ∈ nestedDump.entries, s.fullname = "/fx/vocal/mdl" ∧ s.value = .string "x/y") ∧
      ∃ ordered : List DumpEntry, ordered.Perm nestedDump.entries ∧
        nestedDump.entries.Sublist ordered := by
  obtain ⟨-, h⟩ := (dumpSubtree_carries 0 500 nestedModels "/fx" nestedModels_coherent).runAlone
    runAlone_nestedModels
  obtain ⟨hselectors, hrestore⟩ := h nestedDump rfl
  obtain ⟨bytes, hwritten⟩ := (hrestore 0).runAlone runAlone_restore_nestedDump
  obtain ⟨ordered, hperm, -, hsub⟩ := hwritten (by decide)
  have he : ⟨"/fx/vocal/x/y/p", 7, .int 42⟩ ∈ nestedDump.entries := by decide
  refine ⟨hselectors _ he _ _ nestedModels_governs.2, ordered, hperm, ?_⟩
  refine hsub _ he [⟨"/fx/mdl", 1, .string "vocal"⟩, ⟨"/fx/vocal/mdl", 2, .string "x/y"⟩] ?_ ?_
  · intro s hs
    rcases List.mem_cons.mp hs with rfl | hs
    · exact ⟨by decide, _, _, rfl, nestedModels_governs.1⟩
    · rw [List.mem_singleton.mp hs]
      exact ⟨by decide, _, _, rfl, nestedModels_governs.2⟩
  · exact List.pairwise_pair.mpr ⟨"/fx", "vocal", rfl, rfl⟩

end Session

end LibWing
