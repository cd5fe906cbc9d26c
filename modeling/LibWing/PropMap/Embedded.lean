import LibWing.PropMap.Faithful
import LibWing.Session.Dump

/-!
# The embedded map

The console sees the embedded index as a map from names to definitions.  Whatever records it was
generated from, the index is such a map.

* `PropertyMap.ofSorted` : the map of some records;
* `Represents.refines`, `refines_byId` : an index that has the records is that map;
* `embedded_refines` : and so is the index of the blob that the generator writes.
-/

namespace LibWing

open Session Wingschema

/-- The map of records in the order of their names. -/
def Session.PropertyMap.ofSorted (sorted : List Record)
    (h : sorted.Pairwise fun a b => utf8 a.name < utf8 b.name) : PropertyMap where
  entries := sorted.map fun r => (r.name, r.definition)
  nodup := by
    rw [List.map_map, List.Nodup, List.pairwise_map]
    refine h.imp fun {a b} hlt heq => ?_
    change a.name = b.name at heq
    rw [heq] at hlt
    exact Std.lt_irrefl hlt

/-- The lookups of the index are those of the map. -/
structure Refines (ix : PropIndex) (map : PropertyMap) : Prop where
  /-- It yields the entries of the map. -/
  iter : ix.iter = some map.entries
  /-- It has the definition of each name. -/
  get : ∀ name, ix.get name = some (map.get name)

theorem Represents.refines {ix : PropIndex} {sorted : List Record} (h : Represents ix sorted) :
    Refines ix (.ofSorted sorted h.strict) where
  iter := h.iter_eq
  get name := by
    rw [h.get_eq (List.Perm.refl sorted)]
    refine congrArg some ?_
    rw [PropertyMap.get, PropertyMap.ofSorted, List.find?_map, Option.map_map]
    rfl

/-- The index finds by id what the map does. -/
theorem Represents.refines_byId {ix : PropIndex} {sorted : List Record} (h : Represents ix sorted)
    (id : Int32) : ix.byId id = some ((PropertyMap.ofSorted sorted h.strict).byId id) := by
  rw [h.byId_eq, PropertyMap.byId, PropertyMap.ofSorted, List.filter_map]
  have hfun : (fun entry : String × WingNodeDef => decide (entry.2.id = id)) ∘
      (fun r : Record => (r.name, r.definition)) = fun r => decide (r.definition.id = id) := by
    funext r
    rfl
  rw [hfun]
  cases sorted.filter fun r => decide (r.definition.id = id) with
  | nil => rfl
  | cons r rs => rfl

/-- **The embedded index is the property map** that the console reads. -/
theorem embedded_refines {records : List Record} (hnames : (records.map Record.name).Nodup)
    (hcount : records.length < 2 ^ 31) (hraw : (Record.rawOf records).length < 2 ^ 32) :
    ∃ blob ix map, writePropmapBin (Record.rawOf records) = some blob ∧
      PropIndex.new blob = some ix ∧ Refines ix map := by
  obtain ⟨hash, htable, hslots, hfilled⟩ := hashTable_placed hcount
  have h := represents_indexOf hnames hcount hraw hfilled
  exact ⟨_, indexOf records hash, _, writePropmapBin_eq hnames htable,
    new_indexOf hcount hraw hslots, h.refines⟩

end LibWing
