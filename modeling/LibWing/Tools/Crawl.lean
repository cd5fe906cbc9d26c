import LibWing.Lib.Path
import LibWing.Lib.Stateful
import LibWing.Schema.Names
import LibWing.Tools.Row

/-!
# The crawl of a console

`wingschema` asks a console for the definitions below each node, goes through the models of each
selector, and writes a row for every definition.  The rows can be embedded again without a console.

* `ConsoleTree` : what a console answers in each of its states, and `ConsoleTree.Height` : how deep
  it is;
* `Line` : the connection to it, on which any operation may fail;
* `add`, `crawl` : the crawl, from a node and from the root;
* `parentIdFor` : `parent_id_for`;
* `embedRows` : what `embed_from_sweep_to` makes of rows.

A crawl writes each row twice, to the sweep file and as a record of the map: `Crawl.rows` has both.
-/

namespace LibWing

namespace Wingschema

open Stateful
open LiveSchema (sweptName)

/-! ### The console -/

/-- A console as a crawl sees it: what it answers depends on the models that are selected. -/
structure ConsoleTree where
  /-- What can be selected on it. -/
  State : Type
  /-- The definitions it sends for a request, up to the end of the reply. -/
  definitions : State → Int32 → List WingNodeDef
  /-- The value it sends for a request of node data, if any. -/
  nodeData : State → Int32 → Option WingNodeData
  /-- The state behind a `set_string` that it receives. -/
  setString : State → Int32 → String → State

/-- The definitions of a reply that belong to the parent. -/
def ConsoleTree.below (C : ConsoleTree) (s : C.State) (parent : Int32) : List WingNodeDef :=
  (C.definitions s parent).filter fun d => d.parentId = parent

/-- No chain of definitions below the node, in any states, is longer than `n`. -/
def ConsoleTree.Height (C : ConsoleTree) : ℕ → Int32 → Prop
  | 0, id => ∀ s, C.below s id = []
  | n + 1, id => ∀ s, ∀ d ∈ C.below s id, C.Height n d.id

/-! ### The connection -/

/-- What becomes of an operation that may fail. -/
inductive Fate where
  | done
  /-- It fails, and nothing has been done. -/
  | lost (error : Error)
  /-- It fails, but it has been done. -/
  | late (error : Error)
  deriving DecidableEq

/-- The console, and what becomes of the operations that are ahead: behind the last fate, all of
them are done. -/
structure Line (C : ConsoleTree) where
  /-- The console. -/
  console : C.State
  /-- What becomes of the operations that are ahead. -/
  fates : List Fate

/-- An operation, by what it does to the console. -/
def Line.perform {C : ConsoleTree} (act : C.State → C.State) :
    Line C → Except Error Unit × Line C
  | ⟨s, []⟩ => (.ok (), ⟨act s, []⟩)
  | ⟨s, .done :: fates⟩ => (.ok (), ⟨act s, fates⟩)
  | ⟨s, .lost error :: fates⟩ => (.error error, ⟨s, fates⟩)
  | ⟨s, .late error :: fates⟩ => (.error error, ⟨act s, fates⟩)

/-- `set_string`. -/
def setString {C : ConsoleTree} (line : Line C) (id : Int32) (value : String) :
    Except Error Unit × Line C :=
  line.perform fun s => C.setString s id value

/-- `read_node_data`: the request, and the reads of its reply up to the first that fails. -/
def readNodeData {C : ConsoleTree} (line : Line C) (id : Int32) :
    Option WingNodeData × Line C :=
  let requested := line.perform fun s => s
  if requested.1.isOk then
    let replied := requested.2.perform fun s => s
    (if replied.1.isOk then C.nodeData replied.2.console id else none, replied.2)
  else (none, requested.2)

/-! ### The crawl -/

/-- The value of a selector, before a crawl goes through its models. -/
structure SelectorSnapshot where
  /-- The selector. -/
  id : Int32
  /-- Its path. -/
  fullname : String
  /-- The name of the item that was selected. -/
  value : String
  /-- Its definition. -/
  definition : WingNodeDef
  deriving DecidableEq

/-- A row, with the flag of the record beside it. -/
structure Row where
  /-- The index below a model. -/
  flag : UInt8
  /-- The path of the node. -/
  fullname : String
  /-- Its definition. -/
  definition : WingNodeDef
  deriving DecidableEq

/-- The line of the sweep file. -/
def Row.json (p : FloatText) (r : Row) : Fields :=
  r.definition.toJson p ++ [("fullname", Json.str r.fullname)]

/-- The state of a crawl. -/
structure Crawl (C : ConsoleTree) where
  /-- The connection. -/
  line : Line C
  /-- The answers that have been counted. -/
  cnt : ℕ
  /-- The rows that were written. -/
  rows : List Row
  /-- The selectors whose value was kept. -/
  snapshot : List SelectorSnapshot

/-- Why a crawl stops. -/
inductive Stop where
  | panic (message : String)
  /-- An operation that has failed is unwrapped. -/
  | unwrapped (error : Error)
  | outOfFuel

abbrev CrawlM (C : ConsoleTree) := EStateM Stop (Crawl C)

variable (t : Texts) (C : ConsoleTree)

/-- `selector_snapshot`. -/
def selectorSnapshot (fullname : String) (d : WingNodeDef) (data : Option WingNodeData) :
    Except String SelectorSnapshot :=
  match data with
  | none => .error ("could not read current value of " ++ fullname ++ " (" ++ toString d.id.toInt ++
      ") before crawl; refusing to mutate it")
  | some data =>
    if d.nodeType = .stringEnum then
      match data.stringEnumItem d with
      | some value => .ok ⟨d.id, fullname, value, d⟩
      | none => .error (fullname ++ " returned unknown StringEnum value " ++
          t.stringDebug (data.getString t) ++ "; refusing to guess its restore value")
    else .ok ⟨d.id, fullname, data.displayString t d, d⟩

variable {C} in
/-- An operation that is unwrapped: a failed one is a panic. -/
def unwrapped (act : C.State → C.State) : CrawlM C Unit := do
  let result ← modifyGet fun s =>
    ((s.line.perform act).1, { s with line := (s.line.perform act).2 })
  match result with
  | .ok _ => return ()
  | .error error => throw (.unwrapped error)

variable {C} in
/-- `for`. -/
def forEach {α : Type} (f : α → CrawlM C Unit) : List α → CrawlM C Unit
  | [] => return ()
  | a :: l => do
    f a
    forEach f l

/-- `get_node_def`: all requests, then the replies.  None of them changes what is selected. -/
def getNodeDef (parents : List Int32) : CrawlM C (List (List WingNodeDef)) := do
  forEach (fun _ => unwrapped fun s => s) parents
  forEach (fun _ => unwrapped fun s => s) parents
  let s ← get
  return parents.map (C.below s.line.console)

variable {C} in
/-- Write a row, to the sweep file first. -/
def emit (flag : UInt8) (fullname : String) (d : WingNodeDef) : CrawlM C Unit := do
  unwrapped fun s => s
  modify fun s => { s with rows := s.rows ++ [⟨flag, fullname, d⟩] }

variable {C} in
/-- The current value of a selector. -/
def readSelector (id : Int32) : CrawlM C (Option WingNodeData) :=
  modifyGet fun s => ((readNodeData s.line id).1, { s with line := (readNodeData s.line id).2 })

variable {C} in
/-- Count answers. -/
def count (n : ℕ) : CrawlM C Unit := modify fun s => { s with cnt := s.cnt + n }

variable {C} in
/-- Keep the value of a selector, or panic. -/
def keepSnapshot : Except String SelectorSnapshot → CrawlM C Unit
  | .ok captured => modify fun s => { s with snapshot := s.snapshot ++ [captured] }
  | .error error => throw (.panic error)

/-- The selector of a slot. -/
def isSelector (d : WingNodeDef) : Bool := d.name = "mdl" && d.nodeType = .stringEnum

/-- The selector among the nodes, unless it has been handled. -/
def slotSelector (nodes : List WingNodeDef) (ignore : Bool) : Option WingNodeDef :=
  if ignore then none else nodes.find? isSelector

/-- `add`: each call goes to nodes further down, or to those of a model. -/
def add : ℕ → String → List WingNodeDef → Bool → CrawlM C Unit
  | 0, _, _, _ => throw .outOfFuel
  | fuel + 1, parentFullname, nodes, ignore => do
    let children ← getNodeDef C (nodes.map (·.id))
    count children.length
    match slotSelector nodes ignore with
    | some mdlDef =>
      forEach (fun x => do
        if x.1.index = 0 then
          emit 0 (sweptName parentFullname x.1) x.1
          add fuel (sweptName parentFullname x.1) x.2 false) (nodes.zip children)
      let data ← readSelector mdlDef.id
      keepSnapshot (selectorSnapshot t (parentFullname ++ "/mdl") mdlDef data)
      match mdlDef.stringEnum with
      | none => throw (.panic "called `Option::unwrap()` on a `None` value")
      | some items =>
        forEach (fun item => do
          unwrapped fun s => C.setString s mdlDef.id item.item
          let children ← getNodeDef C [mdlDef.parentId]
          add fuel (parentFullname ++ ("/" ++ item.item)) (children.headD []) true) items
    | none =>
      forEach (fun x => do
        -- The nodes of the slot itself have been handled.
        if !ignore ∨ x.1.index ≠ 0 then
          emit (if ignore then x.1.index.toUInt8 else 0) (sweptName parentFullname x.1) x.1
          add fuel (sweptName parentFullname x.1) x.2 false) (nodes.zip children)

/-- The crawl of `main`. -/
def crawl (fuel : ℕ) : CrawlM C Unit := do
  let children ← getNodeDef C [0]
  add t C fuel "" (children.headD []) false

/-- A crawl of a console of height `n`, and what is left behind it. -/
def crawled (n : ℕ) (line : Line C) : Except Stop Unit × Crawl C :=
  outcome (crawl t C (2 * n + 2)) ⟨line, 1, [], []⟩

/-! ### Embedding -/

/-- The loop of `parent_id_for`, over the path from its end: at each slash, what is before it. -/
def parentIdLoop (idOf : String → Option Int32) : List Char → Int32
  | [] => 0
  | ch :: rest =>
    if ch = '/' then
      if rest = [] then 0
      else match idOf (String.ofList rest.reverse) with
        | some id => id
        | none => parentIdLoop idOf rest
    else parentIdLoop idOf rest

/-- `parent_id_for`. -/
def parentIdFor (fullname : String) (idOf : String → Option Int32) : Int32 :=
  parentIdLoop idOf fullname.toList.reverse

/-- The first pass of `embed_from_sweep_to`: the ids by path; `none` is a panic. -/
def indexRows : List Fields → List (String × Int32) → Option (List (String × Int32))
  | [], ids => some ids
  | row :: rows, ids => do
    let fullname ← (Json.field row "fullname").asStr
    let id ← (Json.field row "id").asI32
    match ids.lookup fullname with
    | some _ => none
    | none => indexRows rows (ids ++ [(fullname, id)])

/-- The definitions that `embed_from_sweep_to` makes of rows; `none` is a panic. -/
def embedRows (p : FloatText) (rows : List Fields) : Option (List WingNodeDef) := do
  let ids ← indexRows rows []
  rows.mapM fun row => do
    let fullname ← (Json.field row "fullname").asStr
    (defFromSweepRow p row (parentIdFor fullname fun name => ids.lookup name)).toOption

end Wingschema

end LibWing
