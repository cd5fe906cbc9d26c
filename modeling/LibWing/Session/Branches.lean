import LibWing.Session.Dump
import LibWing.Session.Restore

/-!
# Model branches

What it means for a path to belong to a model, without reference to how the sweep finds out.

* `PropertyMap.Selector` : the selectors of a map;
* `InBranch` : a path is in the branch of an item of a selector, and `branchOf`, which computes it;
* `ActiveModel.allows_iff` : an active model allows the paths that are in no branch but the selected
  one;
* `PropertyMap.Coherent` : nested selectors belong to one branch with all that they govern, and
  `PropertyMap.isCoherent`, which checks it.
-/

namespace LibWing

namespace Session

open Path

/-- The map has the selector `parent/mdl`. -/
structure PropertyMap.Selector (map : PropertyMap) (parent : String) (d : WingNodeDef) : Prop where
  /-- It is in the map. -/
  mem : (parent ++ "/mdl", d) ∈ map.entries
  /-- It chooses among names. -/
  stringEnum : d.nodeType = .stringEnum

/-- The path is in the branch of an item of the selector `parent/mdl`: below the parent, the item is
the longest that its segments begin with. -/
def InBranch (parent : String) (d : WingNodeDef) (item path : String) : Prop :=
  ∃ items relative, d.stringEnum = some items ∧ path = parent ++ ("/" ++ relative) ∧
    Longest (items.map StringEnumItem.item) relative item

variable {parent item item' path : String} {d : WingNodeDef}

/-! ### What an active model allows -/

theorem itemMatches_iff {relative : String} {item : StringEnumItem} :
    itemMatches relative item = true ↔ Leads item.item relative := by
  rw [itemMatches, Bool.or_eq_true, decide_eq_true_eq, Leads]
  refine or_congr_right ?_
  cases h : stripPrefix item.item relative with
  | none =>
    constructor
    · intro hf
      cases hf
    · rintro ⟨r, hr⟩
      rw [← stripPrefix_eq_some] at hr
      rw [h] at hr
      cases hr
  | some rest =>
    rw [stripPrefix_eq_some] at h
    subst h
    simp only [startsWith_iff]
    refine exists_congr fun r => ?_
    rw [← String.toList_inj, ← String.toList_inj]
    simp only [String.toList_append, List.append_cancel_left_eq]

/-- The branch a path is in. -/
def branchOf (parent : String) (d : WingNodeDef) (path : String) : Option String := do
  let relative ← (stripPrefix parent path).bind (stripPrefix "/")
  let item ← branchItem d relative
  return item.item

theorem below_iff {relative : String} :
    (stripPrefix parent path).bind (stripPrefix "/") = some relative ↔
      path = parent ++ ("/" ++ relative) := by
  simp only [Option.bind_eq_some_iff, stripPrefix_eq_some]
  constructor
  · rintro ⟨_, h, h'⟩
    rw [h, h']
  · intro h
    exact ⟨_, h, rfl⟩

/-- The item that the sweep finds is the longest. -/
theorem branchItem_longest {relative : String} {item : StringEnumItem}
    (h : branchItem d relative = some item) :
    ∃ items, d.stringEnum = some items ∧
      Longest (items.map StringEnumItem.item) relative item.item := by
  obtain ⟨items, hitems, h⟩ := Option.bind_eq_some_iff.mp h
  obtain ⟨hmem, hmax⟩ := maxByKey_spec h
  obtain ⟨hmem, hmatch⟩ := List.mem_filter.mp hmem
  refine ⟨items, hitems, List.mem_map_of_mem hmem, itemMatches_iff.mp hmatch, fun q hq hleads => ?_⟩
  obtain ⟨other, hother, rfl⟩ := List.mem_map.mp hq
  exact hmax other (List.mem_filter.mpr ⟨hother, itemMatches_iff.mpr hleads⟩)

theorem exists_branchItem {items : List StringEnumItem} {relative : String}
    (hitems : d.stringEnum = some items)
    (hlongest : Longest (items.map StringEnumItem.item) relative item) :
    ∃ found, branchItem d relative = some found := by
  refine Option.ne_none_iff_exists'.mp fun h => ?_
  rw [branchItem, hitems] at h
  have hnil := maxByKey_eq_none.mp h
  obtain ⟨i, hi, rfl⟩ := List.mem_map.mp hlongest.mem
  have hmem := List.mem_filter.mpr ⟨hi, itemMatches_iff.mpr hlongest.leads⟩
  rw [hnil] at hmem
  cases hmem

theorem inBranch_iff : InBranch parent d item path ↔ branchOf parent d path = some item := by
  constructor
  · rintro ⟨items, relative, hitems, hpath, hlongest⟩
    obtain ⟨found, hfound⟩ := exists_branchItem hitems hlongest
    obtain ⟨items', hitems', hlongest'⟩ := branchItem_longest hfound
    obtain rfl : items = items' := Option.some.inj (hitems.symm.trans hitems')
    rw [branchOf, below_iff.mpr hpath]
    simp only [Option.bind_eq_bind, Option.bind_some, hfound]
    exact congrArg some (hlongest'.unique hlongest)
  · intro h
    obtain ⟨relative, hbelow, h⟩ := Option.bind_eq_some_iff.mp h
    obtain ⟨found, hfound, h⟩ := Option.bind_eq_some_iff.mp h
    obtain rfl := Option.some.inj h
    obtain ⟨items, hitems, hlongest⟩ := branchItem_longest hfound
    exact ⟨items, relative, hitems, below_iff.mp hbelow, hlongest⟩

/-- A path is in one branch of a selector at most. -/
theorem InBranch.unique (h : InBranch parent d item path) (h' : InBranch parent d item' path) :
    item = item' :=
  Option.some.inj ((inBranch_iff.mp h).symm.trans (inBranch_iff.mp h'))

/-- **An active model allows** the paths that are in no branch but the selected one. -/
theorem ActiveModel.allows_iff {model : ActiveModel} :
    model.allows path = true ↔ ∀ item, InBranch model.parent model.definition item path →
      model.selected = .string item := by
  simp only [inBranch_iff, branchOf, allows]
  cases (stripPrefix model.parent path).bind (stripPrefix "/") with
  | none => exact ⟨fun _ _ => nofun, fun _ => rfl⟩
  | some relative =>
    simp only [Option.bind_eq_bind, Option.bind_some]
    cases branchItem model.definition relative with
    | none => exact ⟨fun _ _ => nofun, fun _ => rfl⟩
    | some item =>
      rw [decide_eq_true_eq]
      refine ⟨fun hselected other hother => ?_, fun h => h item.item rfl⟩
      exact Option.some.inj hother ▸ hselected

/-! ### Depths -/

/-- The number of slashes below a parent. -/
theorem count_below (parent relative : String) :
    (parent ++ ("/" ++ relative)).toList.count '/' =
      (parent ++ "/mdl").toList.count '/' + relative.toList.count '/' := by
  have hslash : "/".toList.count '/' = 1 := by decide
  have hmdl : "/mdl".toList.count '/' = 1 := by decide
  simp only [String.toList_append, List.count_append, hslash, hmdl]
  omega

/-- A path in a branch is no higher than the selector. -/
theorem InBranch.depth_le (h : InBranch parent d item path) :
    (parent ++ "/mdl").toList.count '/' ≤ path.toList.count '/' := by
  obtain ⟨items, relative, -, rfl, -⟩ := h
  rw [count_below]
  exact Nat.le_add_right _ _

/-- A selector in a branch that is as high as the selector of the branch is that selector. -/
theorem InBranch.eq_of_depth {p : String} (h : InBranch parent d item (p ++ "/mdl"))
    (hdepth : (p ++ "/mdl").toList.count '/' ≤ (parent ++ "/mdl").toList.count '/') :
    p = parent := by
  obtain ⟨items, relative, -, heq, -⟩ := h
  rw [heq, count_below] at hdepth
  have hrelative : '/' ∉ relative.toList := by
    rw [← List.count_eq_zero]
    omega
  have hmdl : '/' ∉ "mdl".toList := by decide
  exact (last_segment hmdl hrelative heq).1

/-! ### Coherent maps -/

/-- A selector in a branch of another one is there with all that is below its parent, and a selector
is in no branch of its own. -/
structure PropertyMap.Coherent (map : PropertyMap) : Prop where
  /-- With an inner selector, all that is below its parent is in the branch. -/
  nested : ∀ {parent d outer d' item}, map.Selector parent d → map.Selector outer d' →
    parent ≠ outer → InBranch outer d' item (parent ++ "/mdl") →
    ∀ name ∈ map.entries.map (·.1), (∃ relative, name = parent ++ ("/" ++ relative)) →
      InBranch outer d' item name
  /-- No selector is in a branch of its own. -/
  own : ∀ {parent d item}, map.Selector parent d → ¬ InBranch parent d item (parent ++ "/mdl")

namespace PropertyMap

variable {map : PropertyMap}

/-- The selectors of a map, by their parents. -/
def parents (map : PropertyMap) : List (String × WingNodeDef) :=
  map.entries.filterMap fun (name, d) =>
    if d.nodeType = .stringEnum then (stripSuffix "/mdl" name).map (·, d) else none

theorem mem_parents : (parent, d) ∈ map.parents ↔ map.Selector parent d := by
  simp only [parents, List.mem_filterMap, Prod.exists]
  constructor
  · rintro ⟨name, d', hmem, h⟩
    split_ifs at h with htype
    obtain ⟨p, hp, h⟩ := Option.map_eq_some_iff.mp h
    obtain ⟨rfl, rfl⟩ := Prod.mk.inj h
    rw [stripSuffix_eq_some] at hp
    exact ⟨hp ▸ hmem, htype⟩
  · rintro ⟨hmem, htype⟩
    exact ⟨_, d, hmem, by rw [if_pos htype, stripSuffix_eq_some.mpr rfl]; rfl⟩

/-- Whether the map is coherent. -/
def isCoherent (map : PropertyMap) : Bool :=
  map.parents.all fun (parent, d) =>
    branchOf parent d (parent ++ "/mdl") = none &&
    map.parents.all fun (outer, d') =>
      parent = outer ||
      match branchOf outer d' (parent ++ "/mdl") with
      | none => true
      | some item => map.entries.all fun (name, _) =>
        !startsWith (parent ++ "/") name || branchOf outer d' name = some item

theorem coherent_of_isCoherent (h : map.isCoherent = true) : map.Coherent := by
  simp only [isCoherent, List.all_eq_true, Prod.forall, Bool.and_eq_true, decide_eq_true_eq,
    Bool.or_eq_true, mem_parents] at h
  refine ⟨fun hsel hsel' hne hin name hname hbelow => ?_, fun hsel hin => ?_⟩
  · obtain ⟨⟨name', d''⟩, hmem, rfl⟩ := List.mem_map.mp hname
    obtain ⟨relative, hrelative⟩ := hbelow
    have hall := ((h _ _ hsel).2 _ _ hsel').resolve_left hne
    rw [inBranch_iff] at hin ⊢
    simp only [hin, List.all_eq_true, Prod.forall, Bool.or_eq_true, Bool.not_eq_true',
      decide_eq_true_eq] at hall
    refine (hall name' d'' hmem).resolve_left ?_
    rw [Bool.not_eq_false, startsWith_iff]
    exact ⟨relative, by rw [String.append_assoc]; exact hrelative⟩
  · rw [inBranch_iff, (h _ _ hsel).1] at hin
    cases hin

end PropertyMap

end Session

end LibWing
