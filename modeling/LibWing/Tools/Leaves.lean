import LibWing.Lib.OrInsert
import LibWing.Session.Sweep

/-!
# The leaves of a model

`wingdrive` takes the values of a slot's leaves before it goes through the models of the slot.

* `originalModelLeaves` : the leaves it takes, one for each id;
* `Agrees` : those that are in a branch of the selector are in the branch of the model;
* `Misplaced` : what puts a leaf that is taken into the branch of another item;
* `agrees_iff` : the leaves agree exactly if none of the first of their ids is misplaced.
-/

namespace LibWing

namespace Wingdrive

open Session Path OrInsert

/-- Whether the leaf belongs to the slot while the model is selected. -/
def isModelLeaf (slot model : String) (entry : String × WingNodeDef) : Bool :=
  match (stripPrefix slot entry.1).bind (stripPrefix "/") with
  | none => false
  | some tail =>
    if tail = "mdl" ∨ entry.2.readOnly = true ∨ entry.2.nodeType = .node ∨ '*' ∈ entry.1.toList ∨
        '$' ∈ entry.1.toList then false
    else if '/' ∈ tail.toList then
      -- Only the subtree of the active model is addressable for shared ids.
      ((stripPrefix model tail).bind (stripPrefix "/")).any fun leaf => leaf ≠ ""
    else true

/-- `original_model_leaves`. -/
def originalModelLeaves (map : PropertyMap) (slot model : String) : List (String × WingNodeDef) :=
  (map.entries.filter (isModelLeaf slot model)).foldl
    (fun byId entry => orInsert (fun e => e.2.id) entry byId) []

/-- Every leaf that is in a branch of the selector is in the branch of the model. -/
def Agrees (map : PropertyMap) (slot : String) (d : WingNodeDef) (model : String) : Prop :=
  ∀ leaf ∈ originalModelLeaves map slot model,
    (∃ item, InBranch slot d item leaf.1) → InBranch slot d model leaf.1

variable {map : PropertyMap} {slot model item tail : String} {d : WingNodeDef}
  {items : List StringEnumItem} {entry : String × WingNodeDef}

/-- The leaves agree exactly if a dump keeps them all while this model is active. -/
theorem agrees_iff_matches :
    Agrees map slot d model ↔ ∀ leaf ∈ originalModelLeaves map slot model,
      pathMatchesActiveModels leaf.1 [⟨slot, d, .string model⟩] = true := by
  refine forall₂_congr fun leaf _ => ?_
  rw [pathMatchesActiveModels, List.all_cons, List.all_nil, Bool.and_true, ActiveModel.allows_iff]
  constructor
  · intro h item hitem
    rw [(h ⟨item, hitem⟩).unique hitem]
  · rintro h ⟨item, hitem⟩
    have hsame : NodeValue.string model = .string item := h item hitem
    rw [NodeValue.string.inj hsame]
    exact hitem

/-! ### What is taken -/

/-- The entry is the first of the leaves with its id. -/
def FirstLeaf (map : PropertyMap) (slot model : String) (entry : String × WingNodeDef) : Prop :=
  map.entries.find? (fun e => isModelLeaf slot model e ∧ e.2.id = entry.2.id) = some entry

theorem mem_originalModelLeaves :
    entry ∈ originalModelLeaves map slot model ↔ FirstLeaf map slot model entry := by
  rw [originalModelLeaves, mem_foldl_orInsert, List.find?_filter, FirstLeaf]
  simp only [decide_eq_true_eq]

theorem FirstLeaf.isModelLeaf (h : FirstLeaf map slot model entry) :
    isModelLeaf slot model entry = true := by
  have h := List.find?_some h
  rw [decide_eq_true_eq] at h
  exact h.1

theorem isModelLeaf_cases (h : isModelLeaf slot model (slot ++ ("/" ++ tail), d) = true) :
    '/' ∉ tail.toList ∨ ∃ leaf, tail = model ++ ("/" ++ leaf) := by
  rw [isModelLeaf, below_iff.2 rfl] at h
  simp only at h
  split_ifs at h with hskip hslash
  · obtain ⟨leaf, hleaf, -⟩ := (Option.any_eq_true _ _).1 h
    exact Or.inr ⟨leaf, below_iff.1 hleaf⟩
  · exact Or.inl hslash

/-! ### What puts a leaf into another branch -/

/-- A leaf of the slot with the name of another item, or below an item that extends the model by
segments. -/
def Misplaced (items : List String) (model tail : String) : Prop :=
  ('/' ∉ tail.toList ∧ tail ∈ items ∧ tail ≠ model) ∨
    ∃ x, model ++ ("/" ++ x) ∈ items ∧ Leads (model ++ ("/" ++ x)) tail

theorem size_lt_extended (model x : String) :
    model.utf8ByteSize < (model ++ ("/" ++ x)).utf8ByteSize := by
  rw [String.utf8ByteSize_append, String.utf8ByteSize_append]
  have hslash : "/".utf8ByteSize = 1 := rfl
  omega

theorem Misplaced.exists_inBranch (hitems : d.stringEnum = some items)
    (h : Misplaced (items.map StringEnumItem.item) model tail) :
    ∃ item, InBranch slot d item (slot ++ ("/" ++ tail)) := by
  have hlead : ∃ item ∈ items.map StringEnumItem.item, Leads item tail := by
    rcases h with ⟨-, hmem, -⟩ | ⟨x, hmem, hleads⟩
    · exact ⟨tail, hmem, Or.inl rfl⟩
    · exact ⟨_, hmem, hleads⟩
  obtain ⟨_, hmem, hleads⟩ := hlead
  obtain ⟨item, hitem, rfl⟩ := List.mem_map.1 hmem
  cases hfound : branchItem d tail with
  | none =>
    rw [branchItem, hitems] at hfound
    have hnil := maxByKey_eq_none.1 hfound
    have hin := List.mem_filter.2 ⟨hitem, itemMatches_iff.2 hleads⟩
    rw [hnil] at hin
    cases hin
  | some found =>
    obtain ⟨items', hitems', hlongest⟩ := branchItem_longest hfound
    exact ⟨found.item, items', tail, hitems', rfl, hlongest⟩

theorem Misplaced.not_longest {items : List String} (h : Misplaced items model tail) :
    ¬ Longest items tail model := by
  intro hlongest
  rcases h with ⟨hslash, -, hne⟩ | ⟨x, hmem, hleads⟩
  · exact hne (hlongest.leads.eq_of_not_mem hslash)
  · exact absurd (hlongest.le _ hmem hleads) (Nat.not_le.2 (size_lt_extended model x))

theorem misplaced_of_longest {items : List String} (hmodel : model ∈ items)
    (hleaf : '/' ∉ tail.toList ∨ ∃ leaf, tail = model ++ ("/" ++ leaf))
    (hlongest : Longest items tail item) (hne : item ≠ model) : Misplaced items model tail := by
  rcases hleaf with hslash | ⟨leaf, rfl⟩
  · obtain rfl := hlongest.leads.eq_of_not_mem hslash
    exact Or.inl ⟨hslash, hlongest.mem, hne⟩
  · have hle := hlongest.le model hmodel (Or.inr ⟨leaf, rfl⟩)
    -- The item is no shorter than the model, so it extends it.
    have hext : ∃ x, item = model ++ ("/" ++ x) := by
      rcases hlongest.leads with heq | ⟨r, heq⟩
      · exact ⟨leaf, heq.symm⟩
      · rcases above_cases heq.symm with (rfl | ⟨r', rfl⟩) | hext
        · exact absurd rfl hne
        · exact absurd hle (Nat.not_le.2 (size_lt_extended item r'))
        · exact hext
    obtain ⟨x, rfl⟩ := hext
    exact Or.inr ⟨x, hlongest.mem, hlongest.leads⟩

theorem inBranch_below_iff (hitems : d.stringEnum = some items) :
    InBranch slot d item (slot ++ ("/" ++ tail)) ↔
      Longest (items.map StringEnumItem.item) tail item := by
  constructor
  · rintro ⟨items', relative, hitems', hpath, hlongest⟩
    have hrelative := below_iff.2 hpath
    rw [below_iff.2 rfl] at hrelative
    rw [Option.some.inj hrelative, Option.some.inj (hitems.symm.trans hitems')]
    exact hlongest
  · intro hlongest
    exact ⟨items, tail, hitems, rfl, hlongest⟩

/-- **The snapshot and the dump agree** on the leaves of a model exactly if no leaf that is the
first of its id has the name of another item or is below an item that extends the model. -/
theorem agrees_iff (map : PropertyMap) (slot model : String) (d : WingNodeDef)
    (items : List StringEnumItem) (hitems : d.stringEnum = some items)
    (hmodel : model ∈ items.map StringEnumItem.item) :
    Agrees map slot d model ↔
      ∀ entry tail, FirstLeaf map slot model entry → entry.1 = slot ++ ("/" ++ tail) →
        ¬ Misplaced (items.map StringEnumItem.item) model tail := by
  constructor
  · intro h entry tail hfirst hpath hmisplaced
    have hin := h entry (mem_originalModelLeaves.2 hfirst)
    rw [hpath] at hin
    have hbranch := hin (hmisplaced.exists_inBranch hitems)
    exact hmisplaced.not_longest ((inBranch_below_iff hitems).1 hbranch)
  · rintro h entry hentry ⟨item, hitem⟩
    have hfirst := mem_originalModelLeaves.1 hentry
    obtain ⟨_, tail, -, hpath, -⟩ := id hitem
    obtain ⟨path, leafDef⟩ := entry
    obtain rfl : path = slot ++ ("/" ++ tail) := hpath
    have hlongest := (inBranch_below_iff hitems).1 hitem
    by_cases hne : item = model
    · exact hne ▸ hitem
    · have hmisplaced :=
        misplaced_of_longest hmodel (isModelLeaf_cases hfirst.isModelLeaf) hlongest hne
      exact absurd hmisplaced (h _ tail hfirst rfl)

/-! ### An item that extends another -/

/-- The selector of a slot with two models, one of which extends the other. -/
def delays : WingNodeDef := plainDef 1 .stringEnum (some ["HALL", "DEL", "DEL/REV"])

/-- A slot with a leaf of `DEL/REV` and a leaf of `HALL`. -/
def delaySlot : PropertyMap where
  entries := [("/fx/1/DEL/REV/pdel", plainDef 2 .integer none),
    ("/fx/1/HALL/dcy", plainDef 3 .integer none), ("/fx/1/mdl", delays)]
  nodup := by decide

theorem agrees_iff_delaySlot :
    Agrees delaySlot "/fx/1" delays "HALL" ↔
      ∀ entry tail, FirstLeaf delaySlot "/fx/1" "HALL" entry → entry.1 = "/fx/1" ++ ("/" ++ tail) →
        ¬ Misplaced ["HALL", "DEL", "DEL/REV"] "HALL" tail :=
  agrees_iff delaySlot "/fx/1" "HALL" delays [⟨"HALL", ""⟩, ⟨"DEL", ""⟩, ⟨"DEL/REV", ""⟩] rfl
    (by decide)

/-- The leaf of `DEL/REV` is taken for `DEL`. -/
theorem not_agrees_delaySlot :
    ¬ ∀ (map : PropertyMap) (slot model : String) (d : WingNodeDef) (items : List StringEnumItem),
      map.Selector slot d → d.stringEnum = some items → model ∈ items.map StringEnumItem.item →
        Agrees map slot d model := by
  intro h
  have hselector : delaySlot.Selector "/fx/1" delays := ⟨by decide, rfl⟩
  have hagrees := h delaySlot "/fx/1" "DEL" delays _ hselector rfl (by decide)
  have htaken : ("/fx/1/DEL/REV/pdel", plainDef 2 .integer none) ∈
      originalModelLeaves delaySlot "/fx/1" "DEL" := by
    rw [mem_originalModelLeaves, FirstLeaf]
    decide +kernel
  have hbranch : branchOf "/fx/1" delays "/fx/1/DEL/REV/pdel" = some "DEL/REV" := by decide +kernel
  have hin := hagrees _ htaken ⟨_, inBranch_iff.2 hbranch⟩
  rw [inBranch_iff, hbranch] at hin
  exact absurd (Option.some.inj hin) (by decide)

end Wingdrive

end LibWing
