import LibWing.Session.Bulk
import LibWing.Session.Calls
import LibWing.Lib.Path

/-!
# Dumping a subtree

`dump_subtree` reads the values of the writable leaves under a root.  Definitions of mutually
exclusive models reuse ids, so it reads the model selectors first and keeps to the branches they
select.

* `PropertyMap` : the names and definitions of the embedded map;
* `ActiveModel`, `pathMatchesActiveModels` : the models that were read, and the paths they allow;
* `dumpableLeaves`, `selectors` : what there is to read, in the order of reading;
* `dumpSubtree` : the sweep.
-/

namespace LibWing

open Interleave

/-! ### Values -/

namespace F32

/-- `f32::is_nan`. -/
def isNan (x : F32) : Bool := decide (0x7f800000 < x.bits &&& 0x7fffffff)

/-- `==` of floats: a NaN is different from everything, and the two zeros are equal. -/
def eq (x y : F32) : Bool :=
  !x.isNan && !y.isNan && (x.bits = y.bits || (x.bits ||| y.bits) &&& 0x7fffffff = 0)

end F32

/-- `WingNodeData::string_enum_item`. -/
def WingNodeData.stringEnumItem (data : WingNodeData) (d : WingNodeDef) : Option String := do
  let items ← d.stringEnum
  let item ← match data.intValue, data.stringValue with
    | some index, _ => if 0 ≤ index.toInt then items[index.toInt.toNat]? else none
    | none, some name => items.find? fun item => item.item = name
    | none, none => none
  return item.item

namespace Session

/-- `NodeValue::from_data`. -/
def NodeValue.fromData (data : WingNodeData) : NodeValue :=
  match data.stringValue, data.floatValue with
  | some s, _ => .string s
  | none, some f => .float f
  | none, none => .int (data.intValue.getD 0)

/-- `==` of values. -/
def NodeValue.eq : NodeValue → NodeValue → Bool
  | string a, string b => a = b
  | float a, float b => a.eq b
  | int a, int b => a = b
  | _, _ => false

/-- `dump_value`. -/
def dumpValue (data : WingNodeData) (d : WingNodeDef) : Result NodeValue :=
  if d.nodeType ≠ .stringEnum then .ok (.fromData data)
  else if d.stringEnum = none then .error .invalidData
  else match data.stringEnumItem d with
    | some item => .ok (.string item)
    | none => .ok (.fromData data)

/-! ### The property map -/

/-- The embedded property map: `propmap_iter` goes over its entries. -/
structure PropertyMap where
  /-- The definitions, by path. -/
  entries : List (String × WingNodeDef)
  /-- No path comes twice. -/
  nodup : (entries.map (·.1)).Nodup

namespace PropertyMap

/-- `NAME_TO_DEF.get`. -/
def get (map : PropertyMap) (name : String) : Option WingNodeDef :=
  (map.entries.find? fun entry => entry.1 = name).map (·.2)

/-- `NAME_TO_DEF.get(name).is_some_and(|def| def.read_only)`. -/
def readOnly (map : PropertyMap) (name : String) : Bool :=
  match map.get name with
  | some d => d.readOnly
  | none => false

/-- `id_to_defs_iter`: the definitions that share an id. -/
def byId (map : PropertyMap) (id : Int32) : Option (List (String × WingNodeDef)) :=
  match map.entries.filter fun entry => entry.2.id = id with
  | [] => none
  | entry :: entries => some (entry :: entries)

end PropertyMap

/-- `dumpable_leaves`. -/
def dumpableLeaves (map : PropertyMap) (root : String) : List (String × Int32) :=
  let leaves := (map.entries.filter fun (name, d) =>
    d.nodeType ≠ .node && !d.readOnly && (name = root || Path.startsWith (root ++ "/") name)).map
      fun (name, d) => (name, d.id)
  leaves.mergeSort fun a b => decide (utf8 a.1 ≤ utf8 b.1)

/-- The order in which selectors are read: the outermost first. -/
def selectorLe (a b : String) : Bool :=
  decide (a.toList.count '/' < b.toList.count '/' ∨
    a.toList.count '/' = b.toList.count '/' ∧ utf8 a ≤ utf8 b)

/-- The filter of `selectors`. -/
def isSelectorFor (root name : String) (d : WingNodeDef) : Bool :=
  match Path.stripSuffix "/mdl" name with
  | none => false
  | some parent => d.nodeType = .stringEnum && (name = root || parent = root ||
      Path.startsWith (root ++ "/") parent || Path.startsWith (parent ++ "/") root)

/-- `selectors`, sorted. -/
def selectors (map : PropertyMap) (root : String) : List (String × WingNodeDef) :=
  (map.entries.filter fun (name, d) => isSelectorFor root name d).mergeSort
    fun a b => selectorLe a.1 b.1

/-! ### Active models -/

structure ActiveModel where
  /-- The slot. -/
  parent : String
  /-- The definition of its selector. -/
  definition : WingNodeDef
  /-- The value that was read of it. -/
  selected : NodeValue

/-- Whether an item matches the first segments of a path. -/
def itemMatches (relative : String) (item : StringEnumItem) : Bool :=
  relative = item.item ||
    match Path.stripPrefix item.item relative with
    | some rest => Path.startsWith "/" rest
    | none => false

/-- The item with whose branch a path relative to the selector's parent begins. -/
def branchItem (d : WingNodeDef) (relative : String) : Option StringEnumItem := do
  let items ← d.stringEnum
  Path.maxByKey (fun item => item.item.utf8ByteSize) (items.filter (itemMatches relative))

/-- Whether a model allows a path. -/
def ActiveModel.allows (model : ActiveModel) (path : String) : Bool :=
  match (Path.stripPrefix model.parent path).bind (Path.stripPrefix "/") with
  | none => true
  | some relative =>
    match branchItem model.definition relative with
    | none => true
    | some item => model.selected = .string item.item

/-- `path_matches_active_models`. -/
def pathMatchesActiveModels (path : String) (models : List ActiveModel) : Bool :=
  models.all fun model => model.allows path

/-! ### The sweep -/

/-- `NodeDump`. -/
structure NodeDump where
  /-- The values of the leaves. -/
  entries : List DumpEntry
  /-- The selectors whose value is none of their items. -/
  unknownModels : List String

/-- What the sweep has found out about the selectors. -/
structure Sweep where
  /-- The models that were read. -/
  activeModels : List ActiveModel
  /-- A map from names. -/
  selectorValues : String → Option NodeValue
  /-- The selectors whose value is none of their items. -/
  unknownModels : List String

/-- A part of the sweep, which may fail. -/
abbrev Sweeping := ExceptT Error Thread

variable (t : ℕ) (timeout : Time)

/-- The data of an attended get, which is the last of the responses it delivers. -/
def deliveredData : Except Error Console.Reply → Result WingNodeData
  | .ok (.responses rs) =>
    match rs.getLast? with
    | some (.nodeData _ data) => .ok data
    | _ => .error .invalidData
  | .ok _ => .error .invalidData
  | .error e => .error e

/-- `dump_get`. -/
def dumpGet (id : Int32) : Sweeping WingNodeData := .mk do
  if 0 < (← .load (·.pendingReconnects)) then return .error .reconnecting
  else return deliveredData (← readerCall t (.deliver (.getNodeData id timeout)))

/-- The loop over the selectors. -/
def readSelectors : List (String × WingNodeDef) → Sweep → Sweeping Sweep
  | [], sweep => return sweep
  | (fullname, d) :: rest, sweep =>
    if !pathMatchesActiveModels fullname sweep.activeModels then readSelectors rest sweep
    else do
      let data ← dumpGet t timeout d.id
      let value ← ofExcept (dumpValue data d)
      let unknown := if data.stringEnumItem d = none then [fullname] else []
      readSelectors rest
        { activeModels := sweep.activeModels ++
            -- Selectors are named so.
            [⟨(Path.stripSuffix "/mdl" fullname).getD fullname, d, value⟩]
          selectorValues := Function.update sweep.selectorValues fullname (some value)
          unknownModels := sweep.unknownModels ++ unknown }

/-- The value of a leaf, unless it is kept from the selectors. -/
def leafValue (map : PropertyMap) (selectorValues : String → Option NodeValue) (fullname : String)
    (id : Int32) : Sweeping NodeValue :=
  match selectorValues fullname with
  | some value => return value
  | none => do
    let data ← dumpGet t timeout id
    match map.get fullname with
    | some d => ofExcept (dumpValue data d)
    -- A leaf is in the map.
    | none => throw .invalidData

/-- The loop over the leaves. -/
def readLeaves (map : PropertyMap) (models : List ActiveModel) :
    List (String × Int32) → (String → Option NodeValue) → Sweeping (List DumpEntry)
  | [], _ => return []
  | (fullname, id) :: rest, selectorValues =>
    if !pathMatchesActiveModels fullname models then readLeaves map models rest selectorValues
    else do
      let value ← leafValue t timeout map selectorValues fullname id
      let entries ← readLeaves map models rest (Function.update selectorValues fullname none)
      return ⟨fullname, id, value⟩ :: entries

/-- The loop that reads the selectors again. -/
def confirmSelectors : List ActiveModel → Sweeping Unit
  | [] => return ()
  | model :: models => do
    let data ← dumpGet t timeout model.definition.id
    let value ← ofExcept (dumpValue data model.definition)
    if !value.eq model.selected then throw .invalidData
    else confirmSelectors models

/-- `dump_subtree`, while it holds the reconnect gate. -/
def sweepSubtree (map : PropertyMap) (root : String) : Sweeping NodeDump := do
  let sweep ← readSelectors t timeout (selectors map root) ⟨[], fun _ => none, []⟩
  let entries ← readLeaves t timeout map sweep.activeModels (dumpableLeaves map root)
    sweep.selectorValues
  confirmSelectors t timeout sweep.activeModels
  return ⟨entries, sweep.unknownModels⟩

/-- `dump_subtree`. -/
def dumpSubtree (map : PropertyMap) (root : String) : Thread (Result NodeDump) := do
  lockReconnectGate t
  let result ← (sweepSubtree t timeout map root).run
  .store fun _ s => { s with reconnectGate := none }
  return result

end Session

end LibWing
