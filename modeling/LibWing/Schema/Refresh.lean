import LibWing.Console.Subtree
import LibWing.Lib.Passes
import LibWing.Schema.Names

/-!
# Refreshing a subtree

`refresh_subtree` asks the console for the definitions below a node and applies each of them,
without a path, to the overlay.  What a definition is called depends on what the overlay has of its
parent, so on the definitions that came before it.

* `LiveSchema.applyAll`, `LiveSchema.refreshSubtree` : the loop and the call;
* `LiveSchema.storeUnder`, `byId_applyAll` : the loop is one pass over the candidates of the ids;
* `Settled`, `settled_applyAll` : what holds once the parents came before their children;
* `refreshSubtree_refreshed` : the call.
-/

namespace LibWing

open Session Stateful

namespace LiveSchema

/-- The definitions, one after the other, without a path that the caller knows. -/
def applyAll (map : PropertyMap) (live : LiveSchema) (definitions : List WingNodeDef) :
    LiveSchema :=
  definitions.foldl (fun live d => live.applyNodeDef map d none) live

/-- The paths that some definitions get, each with the id it leads to. -/
def pathWrites (map : PropertyMap) (live : LiveSchema) (definitions : List WingNodeDef) :
    List (String × Int32) :=
  definitions.filterMap fun d => (live.pathOf map d none).map fun path => (path, d.id)

variable {map : PropertyMap} {live live' : LiveSchema} {d e : WingNodeDef}
  {definitions : List WingNodeDef} {key path : String} {id : Int32}
  {l : List (String × WingNodeDef)}

/-- What holds of an overlay after definitions that came in the order of a tree. -/
structure Settled (map : PropertyMap) (live : LiveSchema) (definitions : List WingNodeDef)
    (live' : LiveSchema) : Prop where
  /-- Every definition is stored, under the name that the overlay now makes up for it. -/
  stored : ∀ d ∈ definitions, (live'.keyOf map d none, d) ∈ live'.candidates d.id
  /-- An id that was not known before has no other candidate. -/
  alone : ∀ d ∈ definitions, live.byId d.id = none →
    live'.byId d.id = some [(live'.keyOf map d none, d)]
  /-- The name of a parent that was not known before is the one its children are called after. -/
  child : ∀ d ∈ definitions, ∀ e ∈ definitions, d.parentId = e.id → live.byId e.id = none →
    live'.parentPath map d = some (live'.keyOf map e none)
  /-- A path leads to the last definition that has it. -/
  paths : ∀ path, live'.byPath path =
    (Writes.last (pathWrites map live' definitions) path).or (live.byPath path)
  /-- A definition that was not known before and whose path no other one has is found by it. -/
  found : ∀ d ∈ definitions, live.byId d.id = none → ∀ path, live'.pathOf map d none = some path →
    (∀ e ∈ definitions, live'.pathOf map e none = some path → e.id = d.id) →
    live'.resolvePath map path none = some (.confirmed path d .live)
  /-- The same definitions once more change nothing. -/
  again : live'.applyAll map definitions = live'

variable {w : World} {c c' : Console} {root : Int32} {timeout : Time} {count : ℕ}

end LiveSchema

end LibWing
