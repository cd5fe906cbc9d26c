import LibWing.Session.Branches
import LibWing.Session.Machine
import LibWing.Lib.Sorting

/-!
# What a sweep finds

What `dump_subtree` has read when it succeeds, whatever the console replies and whatever other
clones do in between.

* `Swept` : what the loop over the selectors has found out;
* `Dumped` : what is in a dump;
* `dumpSubtree_always` : every dump is so;
* `Dumped.selected` : a dumped path is in the selected branch of every selector above it;
* `dumpSubtree_ids_nodup` : no two entries of a dump have the same id.
-/

namespace LibWing

open Interleave Prog

namespace Session

/-- The name of the selector. -/
def ActiveModel.path (model : ActiveModel) : String := model.parent ++ "/mdl"

/-- The number of slashes in a name. -/
def depth (name : String) : ℕ := name.toList.count '/'

/-! ### The selectors -/

/-- What is known after the selectors `done`: those that were read are active models, in the order
of reading; each is allowed by those before it, and the others are not allowed. -/
structure Swept (done : List (String × WingNodeDef)) (sweep : Sweep) : Prop where
  /-- The active models are selectors that were gone through. -/
  active : ∀ m ∈ sweep.activeModels, (m.path, m.definition) ∈ done
  /-- Each has the value that was read. -/
  value : ∀ m ∈ sweep.activeModels, sweep.selectorValues m.path = some m.selected
  /-- Each allows those read after it, which are no higher. -/
  inOrder : sweep.activeModels.Pairwise fun m m' =>
    m.allows m'.path = true ∧ depth m.path ≤ depth m'.path
  /-- A selector that is not active is not allowed by one that is. -/
  others : ∀ p ∈ done, (∃ m ∈ sweep.activeModels, m.path = p.1 ∧ m.definition = p.2) ∨
    ∃ m ∈ sweep.activeModels, m.allows p.1 = false

section Selectors

variable {done rest : List (String × WingNodeDef)} {sweep : Sweep} {parent : String}
  {d : WingNodeDef}

/-- A selector that is not allowed. -/
theorem Swept.skip (h : Swept done sweep) {name : String}
    (hno : pathMatchesActiveModels name sweep.activeModels = false) :
    Swept (done ++ [(name, d)]) sweep where
  active m hm := List.mem_append_left _ (h.active m hm)
  value := h.value
  inOrder := h.inOrder
  others p hp := by
    rcases List.mem_append.mp hp with hp | hp
    · exact h.others p hp
    · rw [List.mem_singleton.mp hp]
      rw [pathMatchesActiveModels, List.all_eq_false] at hno
      obtain ⟨m, hm, hm'⟩ := hno
      exact Or.inr ⟨m, hm, Bool.not_eq_true _ ▸ hm'⟩

/-- A selector that is read. -/
theorem Swept.read (h : Swept done sweep)
    (hyes : pathMatchesActiveModels (parent ++ "/mdl") sweep.activeModels = true)
    (hnew : parent ++ "/mdl" ∉ done.map (·.1))
    (hdepth : ∀ p ∈ done, depth p.1 ≤ depth (parent ++ "/mdl")) (value : NodeValue)
    (unknown : List String) :
    Swept (done ++ [(parent ++ "/mdl", d)])
      { activeModels := sweep.activeModels ++ [⟨parent, d, value⟩]
        selectorValues := Function.update sweep.selectorValues (parent ++ "/mdl") (some value)
        unknownModels := unknown } where
  active m hm := by
    rcases List.mem_append.mp hm with hm | hm
    · exact List.mem_append_left _ (h.active m hm)
    · rw [List.mem_singleton.mp hm]
      exact List.mem_append_right _ (List.mem_singleton.mpr rfl)
  value m hm := by
    rcases List.mem_append.mp hm with hm | hm
    · have hne : m.path ≠ parent ++ "/mdl" := by
        intro heq
        exact hnew (List.mem_map.mpr ⟨_, h.active m hm, heq⟩)
      simp only [Function.update_of_ne hne]
      exact h.value m hm
    · rw [List.mem_singleton.mp hm]
      exact Function.update_self ..
  inOrder := by
    refine List.pairwise_append.mpr ⟨h.inOrder, List.pairwise_singleton _ _, fun m hm m' hm' => ?_⟩
    rw [List.mem_singleton.mp hm']
    rw [pathMatchesActiveModels, List.all_eq_true] at hyes
    have hle := hdepth (m.path, m.definition) (h.active m hm)
    exact ⟨hyes m hm, hle⟩
  others p hp := by
    rcases List.mem_append.mp hp with hp | hp
    · exact (h.others p hp).imp
        (fun ⟨m, hm, hp⟩ => ⟨m, List.mem_append_left _ hm, hp⟩)
        fun ⟨m, hm, hp⟩ => ⟨m, List.mem_append_left _ hm, hp⟩
    · rw [List.mem_singleton.mp hp]
      exact Or.inl ⟨_, List.mem_append_right _ (List.mem_singleton.mpr rfl), rfl, rfl⟩

theorem readSelectors_returns (t : ℕ) (timeout : Time) (h : Swept done sweep)
    (hnamed : ∀ p ∈ rest, ∃ parent, p.1 = parent ++ "/mdl")
    (hnodup : ((done ++ rest).map (·.1)).Nodup)
    (horder : (done ++ rest).Pairwise fun a b => depth a.1 ≤ depth b.1) :
    Returns handedBytes (readSelectors t timeout rest sweep) (Swept (done ++ rest)) := by
  induction rest generalizing done sweep with
  | nil =>
    rw [List.append_nil]
    exact .pure h
  | cons p rest ih =>
    obtain ⟨name, d⟩ := p
    obtain ⟨parent, hparent⟩ := hnamed _ List.mem_cons_self
    change name = _ at hparent
    subst hparent
    have hsplit : done ++ (parent ++ "/mdl", d) :: rest =
        done ++ [(parent ++ "/mdl", d)] ++ rest := by
      rw [List.append_assoc]
      rfl
    have hnamed' : ∀ p ∈ rest, ∃ parent, p.1 = parent ++ "/mdl" :=
      fun p hp => hnamed p (List.mem_cons_of_mem _ hp)
    have hnew : parent ++ "/mdl" ∉ done.map (·.1) := by
      rw [List.map_append, List.nodup_append] at hnodup
      exact fun hmem => hnodup.2.2 _ hmem _ List.mem_cons_self rfl
    have hdepth : ∀ p ∈ done, depth p.1 ≤ depth (parent ++ "/mdl") := by
      intro p hp
      have hle := (List.pairwise_append.mp horder).2.2 p hp (parent ++ "/mdl", d) List.mem_cons_self
      exact hle
    rw [hsplit] at hnodup horder ⊢
    rw [readSelectors]
    cases hmatch : pathMatchesActiveModels (parent ++ "/mdl") sweep.activeModels with
    | false => exact ih (h.skip hmatch) hnamed' hnodup horder
    | true =>
      refine (Returns.trivial (dumpGet t timeout d.id)).bind fun data _ => ?_
      have hany : Returns handedBytes (ofExcept (dumpValue data d) : Sweeping NodeValue)
          fun _ => True := Returns.trivial _
      refine hany.bind fun value _ => ?_
      have hstrip : (Path.stripSuffix "/mdl" (parent ++ "/mdl")).getD (parent ++ "/mdl") =
          parent := by
        rw [Path.stripSuffix_eq_some.mpr rfl]
        rfl
      rw [hstrip]
      exact ih (h.read hmatch hnew hdepth value _) hnamed' hnodup horder

end Selectors

/-! ### The leaves -/

/-- The loop over the leaves: an entry for every one that is allowed, with the value kept for it if
there is one. -/
theorem readLeaves_returns (t : ℕ) (timeout : Time) (map : PropertyMap) (models : List ActiveModel)
    {leaves : List (String × Int32)} {values : String → Option NodeValue}
    (hnodup : (leaves.map (·.1)).Nodup) :
    Returns handedBytes (readLeaves t timeout map models leaves values) fun entries =>
      entries.map (fun e => (e.fullname, e.id)) =
        leaves.filter (fun p => pathMatchesActiveModels p.1 models) ∧
      ∀ e ∈ entries, ∀ v, values e.fullname = some v → e.value = v := by
  induction leaves generalizing values with
  | nil => exact .pure ⟨rfl, nofun⟩
  | cons p leaves ih =>
    obtain ⟨name, id⟩ := p
    rw [List.map_cons, List.nodup_cons] at hnodup
    rw [readLeaves]
    cases hmatch : pathMatchesActiveModels name models with
    | false =>
      refine (ih hnodup.2).mono fun entries h => ?_
      rw [List.filter_cons, hmatch]
      exact h
    | true =>
      have hvalue : Returns handedBytes (leafValue t timeout map values name id)
          fun value => ∀ v, values name = some v → value = v := by
        rw [leafValue]
        cases values name with
        | some value => exact .pure fun v hv => Option.some.inj hv
        | none => exact (Returns.trivial _).mono fun value _ => nofun
      refine Returns.bind hvalue fun value hkept => ?_
      refine (ih hnodup.2).bind fun entries ⟨hentries, hvalues⟩ => .pure ⟨?_, fun e he v hv => ?_⟩
      · rw [List.map_cons, hentries, List.filter_cons, hmatch]
        rfl
      · rcases List.mem_cons.mp he with rfl | he
        · exact hkept v hv
        · refine hvalues e he v ?_
          have hne : e.fullname ≠ name := by
            intro heq
            have hmem : (e.fullname, e.id) ∈ leaves := by
              refine List.mem_of_mem_filter (p := fun p => pathMatchesActiveModels p.1 models) ?_
              rw [← hentries]
              exact List.mem_map_of_mem he
            exact hnodup.1 (List.mem_map.mpr ⟨_, hmem, heq⟩)
          rw [Function.update_of_ne hne]
          exact hv

/-! ### What there is to read -/

section Lists

variable {map : PropertyMap} {root name : String} {d : WingNodeDef} {id : Int32}

theorem mem_selectors : (name, d) ∈ selectors map root ↔
    (name, d) ∈ map.entries ∧ isSelectorFor root name d = true := by
  rw [selectors, List.mem_mergeSort, List.mem_filter]

theorem selectors_named {p : String × WingNodeDef} (h : p ∈ selectors map root) :
    ∃ parent, p.1 = parent ++ "/mdl" := by
  have hfor := (mem_selectors.mp h).2
  rw [isSelectorFor] at hfor
  cases hstrip : Path.stripSuffix "/mdl" p.1 with
  | none =>
    rw [hstrip] at hfor
    cases hfor
  | some parent => exact ⟨parent, Path.stripSuffix_eq_some.mp hstrip⟩

theorem selectors_nodup : ((selectors map root).map (·.1)).Nodup := by
  rw [selectors, ((List.mergeSort_perm _ _).map _).nodup_iff]
  exact map.nodup.sublist (List.filter_sublist.map _)

theorem selectors_inOrder : (selectors map root).Pairwise fun a b => depth a.1 ≤ depth b.1 := by
  have hsorted : (selectors map root).Pairwise
      (Sorting.LexLe (fun p => p.1.toList.count '/') fun p => utf8 p.1) :=
    Sorting.pairwise_mergeSort (fun a b => by rw [selectorLe, decide_eq_true_eq]; rfl) _
  exact hsorted.imp fun h => h.elim Nat.le_of_lt fun h => h.1.le

theorem leads_iff {p s : String} :
    (decide (s = p) || Path.startsWith (p ++ "/") s) = true ↔ Path.Leads p s := by
  rw [Bool.or_eq_true, decide_eq_true_eq, Path.startsWith_iff]
  refine or_congr_right (exists_congr fun r => ?_)
  rw [String.append_assoc]

theorem mem_dumpableLeaves : (name, id) ∈ dumpableLeaves map root ↔
    ∃ d, (name, d) ∈ map.entries ∧ d.nodeType ≠ .node ∧ d.readOnly = false ∧
      Path.Leads root name ∧ d.id = id := by
  simp only [dumpableLeaves, List.mem_mergeSort, List.mem_map, List.mem_filter, Prod.exists,
    Prod.mk.injEq, Bool.and_eq_true, leads_iff, decide_eq_true_eq, Bool.not_eq_true']
  constructor
  · rintro ⟨name', d, ⟨hmem, ⟨htype, hro⟩, hleads⟩, rfl, hid⟩
    exact ⟨d, hmem, htype, hro, hleads, hid⟩
  · rintro ⟨d, hmem, htype, hro, hleads, hid⟩
    exact ⟨name, d, ⟨hmem, ⟨htype, hro⟩, hleads⟩, rfl, hid⟩

theorem dumpableLeaves_nodup : ((dumpableLeaves map root).map (·.1)).Nodup := by
  rw [dumpableLeaves, ((List.mergeSort_perm _ _).map _).nodup_iff, List.map_map]
  exact map.nodup.sublist (List.filter_sublist.map _)

end Lists

/-! ### Dumps -/

/-- What is in a dump. -/
structure Dumped (map : PropertyMap) (root : String) (dump : NodeDump) (sweep : Sweep) : Prop where
  /-- All selectors at or under the root were gone through. -/
  swept : Swept (selectors map root) sweep
  /-- The entries are the leaves that the active models allow. -/
  leaves : dump.entries.map (fun e => (e.fullname, e.id)) =
    (dumpableLeaves map root).filter fun p => pathMatchesActiveModels p.1 sweep.activeModels
  /-- A selector has the value that was read in the sweep. -/
  values : ∀ e ∈ dump.entries, ∀ v, sweep.selectorValues e.fullname = some v → e.value = v

/-- **Every dump** is the result of such a sweep. -/
theorem dumpSubtree_always (t : ℕ) (timeout : Time) (map : PropertyMap) (root : String) :
    (dumpSubtree t timeout map root).Always handedBytes fun result _ =>
      ∀ dump, result = .ok dump → ∃ sweep, Dumped map root dump sweep := by
  have hstart : Swept [] ⟨[], fun _ => none, []⟩ := {
    active := fun m hm => absurd hm List.not_mem_nil
    value := fun m hm => absurd hm List.not_mem_nil
    inOrder := .nil
    others := fun p hp => absurd hp List.not_mem_nil }
  have hselectors : Returns handedBytes (readSelectors t timeout (selectors map root) ⟨[],
      fun _ => none, []⟩) (Swept (selectors map root)) := by
    have h := readSelectors_returns t timeout hstart fun p hp => @selectors_named map root p hp
    rw [List.nil_append] at h
    exact h selectors_nodup selectors_inOrder
  have hsweep : Returns handedBytes (sweepSubtree t timeout map root)
      fun dump => ∃ sweep, Dumped map root dump sweep := by
    unfold sweepSubtree
    refine hselectors.bind fun sweep hswept => ?_
    refine (readLeaves_returns t timeout map sweep.activeModels dumpableLeaves_nodup).bind
      fun entries ⟨hleaves, hvalues⟩ => ?_
    refine (Returns.trivial _).bind fun _ _ => .pure ?_
    exact ⟨sweep, hswept, hleaves, hvalues⟩
  unfold dumpSubtree
  refine (Always.trivial (lockReconnectGate t)).bind fun _ _ _ => ?_
  refine Always.bind hsweep fun result _ hresult => ?_
  refine (Always.trivial _).bind fun _ _ _ => ?_
  exact hresult

/-! ### Dumped paths are in selected branches -/

theorem isSelectorFor_iff {root parent : String} {d : WingNodeDef} :
    isSelectorFor root (parent ++ "/mdl") d = true ↔ d.nodeType = .stringEnum ∧
      (parent ++ "/mdl" = root ∨ Path.Leads root parent ∨ ∃ x, root = parent ++ ("/" ++ x)) := by
  simp only [isSelectorFor, Path.stripSuffix_eq_some.mpr rfl, Bool.and_eq_true, Bool.or_eq_true,
    decide_eq_true_eq, Path.startsWith_iff, Path.Leads, String.append_assoc, or_assoc]

theorem isSelectorFor_of_below {root parent relative : String} {d : WingNodeDef}
    (htype : d.nodeType = .stringEnum) (hroot : Path.Leads root (parent ++ ("/" ++ relative))) :
    isSelectorFor root (parent ++ "/mdl") d = true := by
  refine isSelectorFor_iff.mpr ⟨htype, Or.inr ?_⟩
  rcases hroot with heq | ⟨r, heq⟩
  · exact Or.inr ⟨relative, heq.symm⟩
  · exact Path.above_cases heq.symm

namespace Dumped

variable {map : PropertyMap} {root : String} {dump : NodeDump} {sweep : Sweep}
  (h : Dumped map root dump sweep)
include h

/-- An entry is a leaf that all active models allow. -/
theorem entry {e : DumpEntry} (he : e ∈ dump.entries) :
    (e.fullname, e.id) ∈ dumpableLeaves map root ∧
      ∀ m ∈ sweep.activeModels, m.allows e.fullname = true := by
  have hmem := List.mem_map_of_mem (f := fun e : DumpEntry => (e.fullname, e.id)) he
  rw [h.leaves, List.mem_filter, pathMatchesActiveModels, List.all_eq_true] at hmem
  exact hmem

theorem names_pairwise : dump.entries.Pairwise fun a b => a.fullname ≠ b.fullname := by
  have hnodup : ((dump.entries.map fun e => (e.fullname, e.id)).map (·.1)).Nodup := by
    rw [h.leaves]
    exact dumpableLeaves_nodup.sublist (List.filter_sublist.map _)
  rw [List.map_map, List.Nodup, List.pairwise_map] at hnodup
  exact hnodup

theorem selector {m : ActiveModel} (hm : m ∈ sweep.activeModels) :
    map.Selector m.parent m.definition := by
  obtain ⟨hmem, hfor⟩ := mem_selectors.mp (h.swept.active m hm)
  exact ⟨hmem, (isSelectorFor_iff.mp hfor).1⟩

/-- **A dumped path is in the selected branch** of every selector above it: a selector that was not
read is in a branch that is not selected, and so is all that it governs. -/
theorem selected (hcoherent : map.Coherent) {e : DumpEntry} (he : e ∈ dump.entries)
    {parent item : String} {d : WingNodeDef} (hsel : map.Selector parent d)
    (hin : InBranch parent d item e.fullname) :
    ∃ m ∈ sweep.activeModels, m.path = parent ++ "/mdl" ∧ m.definition = d ∧
      m.selected = .string item := by
  obtain ⟨hleaf, hallowed⟩ := h.entry he
  obtain ⟨de, hentry, -, -, hroot, -⟩ := mem_dumpableLeaves.mp hleaf
  obtain ⟨items, relative, -, hpath, -⟩ := id hin
  have hread : (parent ++ "/mdl", d) ∈ selectors map root :=
    mem_selectors.mpr ⟨hsel.mem, isSelectorFor_of_below hsel.stringEnum (hpath ▸ hroot)⟩
  rcases h.swept.others _ hread with ⟨m, hm, hname, rfl⟩ | ⟨m, hm, hno⟩
  · have hparent : m.parent = parent := by
      change m.parent ++ "/mdl" = parent ++ "/mdl" at hname
      rw [← String.toList_inj] at hname ⊢
      simpa only [String.toList_append, List.append_cancel_right_eq] using hname
    exact ⟨m, hm, hname, rfl, ActiveModel.allows_iff.mp (hallowed m hm) item (hparent ▸ hin)⟩
  · -- The selector is in a branch that is not selected, and the path with it.
    exfalso
    refine Bool.false_ne_true (hno.symm.trans (ActiveModel.allows_iff.mpr fun other hother => ?_))
    have hne : parent ≠ m.parent := by
      rintro rfl
      exact hcoherent.own (h.selector hm) hother
    have hwith := hcoherent.nested hsel (h.selector hm) hne hother e.fullname
      (List.mem_map_of_mem hentry) ⟨relative, hpath⟩
    exact ActiveModel.allows_iff.mp (hallowed m hm) other hwith

end Dumped

/-! ### Ids -/

/-- Different writable paths with values that share an id are in different branches of a
selector. -/
def PropertyMap.IdsApart (map : PropertyMap) : Prop :=
  ∀ {name name' d d'}, (name, d) ∈ map.entries → (name', d') ∈ map.entries → name ≠ name' →
    d.nodeType ≠ .node → d.readOnly = false → d'.nodeType ≠ .node → d'.readOnly = false →
    d.id = d'.id → ∃ parent sel item item', map.Selector parent sel ∧
      InBranch parent sel item name ∧ InBranch parent sel item' name' ∧ item ≠ item'

/-- **A physical parameter appears at most once in a dump.** -/
theorem dumpSubtree_ids_nodup (t : ℕ) (timeout : Time) (map : PropertyMap) (root : String)
    (hcoherent : map.Coherent) (hapart : map.IdsApart) :
    (dumpSubtree t timeout map root).Always handedBytes fun result _ =>
      ∀ dump, result = .ok dump → (dump.entries.map (·.id)).Nodup := by
  refine (dumpSubtree_always t timeout map root).mono fun result _ hdumped dump hdump => ?_
  obtain ⟨sweep, h⟩ := hdumped dump hdump
  rw [List.Nodup, List.pairwise_map]
  refine h.names_pairwise.imp_of_mem fun {a b} ha hb hne hid => ?_
  obtain ⟨da, hda, hta, hra, -, hida⟩ := mem_dumpableLeaves.mp (h.entry ha).1
  obtain ⟨db, hdb, htb, hrb, -, hidb⟩ := mem_dumpableLeaves.mp (h.entry hb).1
  obtain ⟨parent, sel, item, item', hsel, hin, hin', hitems⟩ :=
    hapart hda hdb hne hta hra htb hrb (hida.trans (hid.trans hidb.symm))
  obtain ⟨m, hm, hname, -, hselected⟩ := h.selected hcoherent ha hsel hin
  obtain ⟨m', hm', hname', -, hselected'⟩ := h.selected hcoherent hb hsel hin'
  -- The selector has one value.
  have hvalue := h.swept.value m hm
  have hvalue' := h.swept.value m' hm'
  rw [hname, hselected] at hvalue
  rw [hname', hselected', hvalue] at hvalue'
  cases hvalue'
  exact hitems rfl

/-- Whether different paths that share an id are in different branches. -/
def PropertyMap.idsAreApart (map : PropertyMap) : Bool :=
  map.entries.all fun (name, d) => map.entries.all fun (name', d') =>
    name = name' || d.nodeType = .node || d.readOnly || d'.nodeType = .node || d'.readOnly ||
    d.id ≠ d'.id || map.parents.any fun (parent, sel) =>
      (branchOf parent sel name).isSome && (branchOf parent sel name').isSome &&
        branchOf parent sel name ≠ branchOf parent sel name'

theorem PropertyMap.idsApart_of_idsAreApart {map : PropertyMap} (h : map.idsAreApart = true) :
    map.IdsApart := by
  intro name name' d d' hmem hmem' hne htype hro htype' hro' hid
  simp only [idsAreApart, List.all_eq_true, Prod.forall] at h
  have hpair := h name d hmem name' d' hmem'
  simp only [hne, htype, hro, htype', hro', hid, decide_false, ne_eq, not_true_eq_false,
    Bool.or_self,
    Bool.false_or, List.any_eq_true, Prod.exists, Bool.and_eq_true, Option.isSome_iff_exists,
    decide_eq_true_eq] at hpair
  obtain ⟨parent, sel, hsel, ⟨⟨item, hitem⟩, item', hitem'⟩, hitems⟩ := hpair
  refine ⟨parent, sel, item, item', mem_parents.mp hsel, inBranch_iff.mpr hitem,
    inBranch_iff.mpr hitem', ?_⟩
  rintro rfl
  exact hitems (hitem.trans hitem'.symm)

/-- A definition for a small map. -/
def plainDef (id : Int32) (nodeType : NodeType) (items : Option (List String)) : WingNodeDef where
  id := id
  parentId := 0
  index := 0
  name := ""
  longName := ""
  nodeType := nodeType
  unit := .none
  readOnly := false
  minFloat := none
  maxFloat := none
  steps := none
  minInt := none
  maxInt := none
  maxStringLen := none
  stringEnum := items.map fun items => items.map fun item => ⟨item, ""⟩
  floatEnum := none
  raw := []

/-- An effect with two models, one of which has two models of its own.  Three parameters share an
id. -/
def nestedModels : PropertyMap where
  entries := [
    ("/fx/mdl", plainDef 1 .stringEnum (some ["room", "vocal"])),
    ("/fx/room/p", plainDef 7 .integer none),
    ("/fx/vocal/mdl", plainDef 2 .stringEnum (some ["x", "x/y"])),
    ("/fx/vocal/x/p", plainDef 7 .integer none),
    ("/fx/vocal/x/y/p", plainDef 7 .integer none)]
  nodup := by decide

/-- The replies of a console that has the models `vocal` and `x/y`. -/
def nestedReplies : List Poll :=
  [.read (.ok [0xd7, 0, 0, 0, 1, 1]), .read (.ok [0xd7, 0, 0, 0, 2, 1]),
    .read (.ok [0xd7, 0, 0, 0, 7, 42]), .read (.ok [0xd7, 0, 0, 0, 1, 1]),
    .read (.ok [0xd7, 0, 0, 0, 2, 1])]

/-- Its dump. -/
def nestedDump : NodeDump where
  entries := [⟨"/fx/mdl", 1, .string "vocal"⟩, ⟨"/fx/vocal/mdl", 2, .string "x/y"⟩,
    ⟨"/fx/vocal/x/y/p", 7, .int 42⟩]
  unknownModels := []

deriving instance DecidableEq for DumpEntry, NodeDump

theorem nestedModels_coherent : nestedModels.Coherent :=
  PropertyMap.coherent_of_isCoherent (by decide +kernel)

/-- The map is in the order of reading already. -/
theorem runAlone_nestedModels :
    (dumpSubtree 0 500 nestedModels "/fx").runAlone (.calm []) (.new 0 nestedReplies) =
      some (.ok nestedDump) := by
  have hselectors : selectors nestedModels "/fx" =
      nestedModels.entries.filter fun (name, d) => isSelectorFor "/fx" name d := by
    refine List.mergeSort_of_pairwise ?_
    decide +kernel
  have hleaves : dumpableLeaves nestedModels "/fx" =
      nestedModels.entries.map fun (name, d) => (name, d.id) := by
    refine (List.mergeSort_of_pairwise ?_).trans ?_ <;> decide +kernel
  simp only [dumpSubtree, sweepSubtree, hselectors, hleaves]
  decide +kernel

theorem nestedModels_ids_nodup :
    (dumpSubtree 0 500 nestedModels "/fx").runAlone (.calm []) (.new 0 nestedReplies) =
      some (.ok nestedDump) ∧ (nestedDump.entries.map (·.id)).Nodup := by
  obtain ⟨-, h⟩ := (dumpSubtree_ids_nodup 0 500 nestedModels "/fx" nestedModels_coherent
    (PropertyMap.idsApart_of_idsAreApart (by decide +kernel))).runAlone runAlone_nestedModels
  exact ⟨runAlone_nestedModels, h nestedDump rfl⟩

end Session

end LibWing
