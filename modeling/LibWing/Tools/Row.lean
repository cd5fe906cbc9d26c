import LibWing.Node.Recode
import LibWing.Tools.Snap

/-!
# Rows of a sweep

`wingschema` writes every definition of a sweep as a row, and reads definitions from such rows.

* `Json` : the values of a row, as they are parsed again;
* `WingNodeDef.toJson` : `to_json`;
* `defFromSweepRow` : `def_from_sweep_row`;
* `defFromSweepRow_toJson` : a row gives back the canonical form of its definition.

All keys of a row are different, so a key that is inserted is one more key.
-/

namespace LibWing

/-! ### Values -/

/-- A value of a row.  A float is known by its text. -/
inductive Json where
  | null
  | str (value : String)
  | int (value : ℤ)
  | float (text : String)
  | bool (value : Bool)
  | arr (items : List Json)
  | obj (fields : List (String × Json))

/-- The fields of a row. -/
abbrev Fields := List (String × Json)

namespace Json

/-- `row[key]`. -/
def field (fields : Fields) (key : String) : Json := (fields.lookup key).getD .null

/-- `value[key]`. -/
def get (value : Json) (key : String) : Json :=
  match value with
  | .obj fields => field fields key
  | _ => .null

/-- `as_str`. -/
def asStr : Json → Option String
  | .str value => some value
  | _ => none

/-- `as_i32`. -/
def asI32 : Json → Option Int32
  | .int value => if -2 ^ 31 ≤ value ∧ value < 2 ^ 31 then some (Int32.ofInt value) else none
  | _ => none

/-- `as_u16`. -/
def asU16 : Json → Option UInt16
  | .int value => if 0 ≤ value ∧ value < 2 ^ 16 then some (UInt16.ofNat value.toNat) else none
  | _ => none

/-- `as_bool`. -/
def asBool : Json → Option Bool
  | .bool value => some value
  | _ => none

/-- `members`. -/
def members : Json → List Json
  | .arr items => items
  | _ => []

end Json

/-- How floats are written as text and read again. -/
structure FloatText where
  /-- The text of a float. -/
  write : F32 → String
  /-- The float of a text, if it is one. -/
  parse : String → Option F32

/-- `JsonValue::from` of a float: what is not finite is null. -/
def FloatText.json (p : FloatText) (x : F32) : Json :=
  if x.isFinite then .float (p.write x) else .null

/-! ### Writing a row -/

/-- The text of a type. -/
def NodeType.text : NodeType → String
  | node => "node"
  | linearFloat => "linear float"
  | logarithmicFloat => "log float"
  | integer => "integer"
  | string => "string"
  | faderLevel => "fader level"
  | stringEnum => "string enum"
  | floatEnum => "float enum"
  | unknown _ => "unknown"

/-- The nibble of a type that has no name. -/
def NodeType.raw : NodeType → Option ℤ
  | unknown n => some n.toNat
  | _ => none

/-- The text of a unit. -/
def NodeUnit.text : NodeUnit → Option String
  | none => .none
  | unknown _ => some "unknown"
  | db => some "dB"
  | percent => some "%"
  | milliseconds => some "ms"
  | hertz => some "Hz"
  | meters => some "meters"
  | seconds => some "seconds"
  | octaves => some "octaves"

/-- The nibble of a unit that has no name. -/
def NodeUnit.raw : NodeUnit → Option ℤ
  | unknown n => some n.toNat
  | _ => .none

/-- A field that may be missing. -/
def optional {α : Type} (key : String) (f : α → Json) : Option α → Fields
  | none => []
  | some a => [(key, f a)]

/-- A string, which is missing if it is empty. -/
def nonempty (s : String) : Option String := if s = "" then none else some s

def StringEnumItem.toJson (i : StringEnumItem) : Json :=
  .obj ([("item", .str i.item)] ++ optional "longitem" .str (nonempty i.longItem))

def FloatEnumItem.toJson (p : FloatText) (i : FloatEnumItem) : Json :=
  .obj ([("item", p.json i.item)] ++ optional "longitem" .str (nonempty i.longItem))

namespace WingNodeDef

/-- The fields for the type and the unit. -/
def kindFields (d : WingNodeDef) : Fields :=
  [("type", .str d.nodeType.text)] ++ optional "type_raw" .int d.nodeType.raw ++
    optional "unit" .str d.unit.text ++ optional "unit_raw" .int d.unit.raw

/-- The fields that depend on the type. -/
def typeFields (p : FloatText) (d : WingNodeDef) : Fields :=
  match d.nodeType with
  | .linearFloat | .logarithmicFloat | .faderLevel =>
    optional "minfloat" p.json d.minFloat ++ optional "maxfloat" p.json d.maxFloat ++
      optional "steps" (fun steps => .int steps.toInt) d.steps
  | .integer =>
    optional "minint" (fun min => .int min.toInt) d.minInt ++
      optional "maxint" (fun max => .int max.toInt) d.maxInt
  | .string => optional "maxstringlen" (fun len => .int len.toNat) d.maxStringLen
  | .stringEnum => optional "items" (fun items => .arr (items.map StringEnumItem.toJson))
      d.stringEnum
  | .floatEnum => optional "items" (fun items => .arr (items.map (FloatEnumItem.toJson p)))
      d.floatEnum
  | _ => []

/-- `to_json`. -/
def toJson (p : FloatText) (d : WingNodeDef) : Fields :=
  [("id", .int d.id.toInt)] ++
    optional "index" (fun index => .int index.toNat) (if d.index ≠ 0 then some d.index else none) ++
    optional "name" .str (nonempty d.name) ++
    optional "longname" .str (nonempty d.longName) ++
    d.kindFields ++
    optional "read_only" .bool (if d.readOnly then some true else none) ++
    d.typeFields p

end WingNodeDef

/-! ### Reading a row -/

namespace Wingschema

/-- `json_f32`: no other value has the text of a float. -/
def jsonF32 (p : FloatText) : Json → F32
  | .float text => (p.parse text).getD ⟨0⟩
  | .int value => (p.parse (toString value)).getD ⟨0⟩
  | _ => ⟨0⟩

/-- The type of a row. -/
def rowType : Option String → Except String NodeType
  | some "node" => .ok .node
  | some "linear float" => .ok .linearFloat
  | some "log float" => .ok .logarithmicFloat
  | some "fader level" => .ok .faderLevel
  | some "integer" => .ok .integer
  | some "string enum" => .ok .stringEnum
  | some "float enum" => .ok .floatEnum
  | some "string" => .ok .string
  | some other => .error ("unknown node type `" ++ other ++ "` in sweep row")
  | none => .error "sweep row missing node type"

/-- The unit of a row. -/
def rowUnit : Option String → Except String NodeUnit
  | none => .ok .none
  | some "dB" => .ok .db
  | some "%" => .ok .percent
  | some "ms" => .ok .milliseconds
  | some "Hz" => .ok .hertz
  | some "meters" => .ok .meters
  | some "seconds" => .ok .seconds
  | some "octaves" => .ok .octaves
  | some other => .error ("unknown unit `" ++ other ++ "` in sweep row")

/-- `then`. -/
def onlyIf {α : Type} (condition : Bool) (a : α) : Option α := if condition then some a else none

/-- `def_from_sweep_row`; it panics with the text. -/
def defFromSweepRow (p : FloatText) (row : Fields) (parentId : Int32) :
    Except String WingNodeDef := do
  let nodeType ← rowType (Json.field row "type").asStr
  let unit ← rowUnit (Json.field row "unit").asStr
  let hasFloatRange := (row.lookup "minfloat").isSome
  let floatRangeRequired := decide (nodeType = .linearFloat ∨ nodeType = .logarithmicFloat)
  let range := floatRangeRequired || hasFloatRange
  let id ← match (Json.field row "id").asI32 with
    | some id => .ok id
    | none => .error "sweep row missing id"
  return {
    parentId := parentId
    id := id
    index := (Json.field row "index").asU16.getD 0
    name := (Json.field row "name").asStr.getD ""
    longName := (Json.field row "longname").asStr.getD ""
    nodeType := nodeType
    unit := unit
    readOnly := (Json.field row "read_only").asBool.getD false
    minFloat := onlyIf range (jsonF32 p (Json.field row "minfloat"))
    maxFloat := onlyIf range (jsonF32 p (Json.field row "maxfloat"))
    steps := onlyIf range ((Json.field row "steps").asI32.getD 0)
    minInt := onlyIf (nodeType = .integer) ((Json.field row "minint").asI32.getD 0)
    maxInt := onlyIf (nodeType = .integer) ((Json.field row "maxint").asI32.getD 0)
    maxStringLen := onlyIf (nodeType = .string) ((Json.field row "maxstringlen").asU16.getD 0)
    stringEnum := onlyIf (nodeType = .stringEnum) ((Json.field row "items").members.map fun item =>
      ⟨(item.get "item").asStr.getD "", (item.get "longitem").asStr.getD ""⟩)
    floatEnum := onlyIf (nodeType = .floatEnum) ((Json.field row "items").members.map fun item =>
      ⟨jsonF32 p (item.get "item"), (item.get "longitem").asStr.getD ""⟩)
    raw := [] }

/-! ### Rows -/

section Rows

variable {p : FloatText} {d : WingNodeDef} {key : String}

theorem lookup_single (key k : String) (value : Json) :
    [(key, value)].lookup k = if k = key then some value else none := by
  rw [List.lookup_cons]
  by_cases h : k = key
  · simp [h]
  · rw [beq_false_of_ne h, if_neg h]
    rfl

theorem lookup_optional {α : Type} (key k : String) (f : α → Json) (o : Option α) :
    (optional key f o).lookup k = if k = key then o.map f else none := by
  cases o with
  | none => simp [optional]
  | some a =>
    rw [optional, lookup_single, Option.map_some]

/-- The keys of the fields that depend on the type. -/
def typeKeys : List String :=
  ["minfloat", "maxfloat", "steps", "minint", "maxint", "maxstringlen", "items"]

theorem lookup_typeFields (h : key ∉ typeKeys) : (d.typeFields p).lookup key = none := by
  simp only [typeKeys, List.mem_cons, List.not_mem_nil, or_false, not_or] at h
  unfold WingNodeDef.typeFields
  split <;> simp [List.lookup_append, lookup_optional, h]

theorem asI32_toInt (x : Int32) : (Json.int x.toInt).asI32 = some x := by
  have hle := x.le_toInt
  have hlt := x.toInt_lt
  rw [Json.asI32, if_pos ⟨hle, hlt⟩, Int32.ofInt_toInt]

theorem asU16_toNat (x : UInt16) : (Json.int x.toNat).asU16 = some x := by
  have hlt := x.toNat_lt
  rw [Json.asU16, if_pos ⟨Int.natCast_nonneg _, by exact_mod_cast hlt⟩]
  simp

/-- A row of a definition whose type and unit have names, by its keys. -/
theorem lookup_row (htype : d.nodeType.raw = none) (hunit : d.unit.raw = none) (fullname : String) :
    (d.toJson p ++ [("fullname", Json.str fullname)]).lookup key =
      (if key = "id" then some (Json.int d.id.toInt) else none).or
      ((if key = "index" then (if d.index ≠ 0 then some d.index else none).map
        (fun index => Json.int index.toNat) else none).or
      ((if key = "name" then (nonempty d.name).map Json.str else none).or
      ((if key = "longname" then (nonempty d.longName).map Json.str else none).or
      ((if key = "type" then some (Json.str d.nodeType.text) else none).or
      ((if key = "unit" then d.unit.text.map Json.str else none).or
      ((if key = "read_only" then (if d.readOnly then some true else none).map
        Json.bool else none).or
      (((d.typeFields p).lookup key).or
      (if key = "fullname" then some (Json.str fullname) else none)))))))) := by
  rw [WingNodeDef.toJson, WingNodeDef.kindFields, htype, hunit]
  simp only [List.lookup_append, lookup_single, lookup_optional, Option.map_none,
    ite_self, Option.or_none, Option.or_assoc]

/-- A definition that a sweep can write: it was read from the wire, its type and its unit have
names, and its floats are finite. -/
structure Sweepable (d : WingNodeDef) : Prop where
  /-- It is one that a reader can return. -/
  parsed : d.Parsed
  /-- Its type has a name. -/
  type : d.nodeType.raw = none
  /-- Its unit has a name. -/
  unit : d.unit.raw = none
  /-- Its lower bound is finite. -/
  minFloat : ∀ x, d.minFloat = some x → x.isFinite = true
  /-- Its upper bound is finite. -/
  maxFloat : ∀ x, d.maxFloat = some x → x.isFinite = true
  /-- The values of its items are finite. -/
  floatEnum : ∀ items, d.floatEnum = some items → ∀ i ∈ items, i.item.isFinite = true

theorem rowType_text {t : NodeType} (h : t.raw = none) : rowType (some t.text) = .ok t := by
  cases t with
  | unknown n => cases h
  | _ => rfl

theorem rowUnit_text {u : NodeUnit} (h : u.raw = none) : rowUnit u.text = .ok u := by
  cases u with
  | unknown n => cases h
  | _ => rfl

theorem asStr_nonempty (s : String) :
    (((nonempty s).map Json.str).getD .null).asStr.getD "" = s := by
  rw [nonempty]
  split_ifs with h
  · exact h.symm
  · rfl

theorem jsonF32_json (hp : ∀ x : F32, x.isFinite = true → p.parse (p.write x) = some x) {x : F32}
    (h : x.isFinite = true) : jsonF32 p (p.json x) = x := by
  rw [FloatText.json, if_pos h, jsonF32, hp x h]
  rfl

/-- A definition with the fields that depend on its type as they are read. -/
def withTypeFields (p : FloatText) (d : WingNodeDef) (fields : Fields) : WingNodeDef :=
  let range := decide (d.nodeType = .linearFloat ∨ d.nodeType = .logarithmicFloat) ||
    (fields.lookup "minfloat").isSome
  { d with
    minFloat := onlyIf range (jsonF32 p (Json.field fields "minfloat"))
    maxFloat := onlyIf range (jsonF32 p (Json.field fields "maxfloat"))
    steps := onlyIf range ((Json.field fields "steps").asI32.getD 0)
    minInt := onlyIf (d.nodeType = .integer) ((Json.field fields "minint").asI32.getD 0)
    maxInt := onlyIf (d.nodeType = .integer) ((Json.field fields "maxint").asI32.getD 0)
    maxStringLen := onlyIf (d.nodeType = .string) ((Json.field fields "maxstringlen").asU16.getD 0)
    stringEnum := onlyIf (d.nodeType = .stringEnum)
      ((Json.field fields "items").members.map fun item =>
      ⟨(item.get "item").asStr.getD "", (item.get "longitem").asStr.getD ""⟩)
    floatEnum := onlyIf (d.nodeType = .floatEnum)
      ((Json.field fields "items").members.map fun item =>
      ⟨jsonF32 p (item.get "item"), (item.get "longitem").asStr.getD ""⟩)
    raw := [] }

theorem defFromSweepRow_head (htype : d.nodeType.raw = none) (hunit : d.unit.raw = none)
    (fullname : String) (parentId : Int32) :
    defFromSweepRow p (d.toJson p ++ [("fullname", Json.str fullname)]) parentId =
      .ok { withTypeFields p d (d.typeFields p) with parentId := parentId } := by
  have hrow := fun key => @lookup_row p d key htype hunit fullname
  have hkey : ∀ key ∈ typeKeys, (d.toJson p ++ [("fullname", Json.str fullname)]).lookup key =
      (d.typeFields p).lookup key := by
    intro key hkey
    rw [hrow]
    simp only [typeKeys, List.mem_cons, List.not_mem_nil, or_false] at hkey
    rcases hkey with rfl | rfl | rfl | rfl | rfl | rfl | rfl <;> simp
  have hfield : ∀ key ∈ typeKeys, Json.field (d.toJson p ++ [("fullname", Json.str fullname)]) key =
      Json.field (d.typeFields p) key := fun key h => by rw [Json.field, Json.field, hkey key h]
  have hid : Json.field (d.toJson p ++ [("fullname", Json.str fullname)]) "id" =
      .int d.id.toInt := by
    rw [Json.field, hrow]
    simp
  have hindex : (Json.field (d.toJson p ++ [("fullname", Json.str fullname)])
    "index").asU16.getD 0 =
      d.index := by
    rw [Json.field, hrow, lookup_typeFields (by decide)]
    by_cases h : d.index = 0
    · simp [h, Json.asU16]
    · simp [h, asU16_toNat]
  have hname : (Json.field (d.toJson p ++ [("fullname", Json.str fullname)]) "name").asStr.getD "" =
      d.name := by
    rw [Json.field, hrow, lookup_typeFields (by decide)]
    simp [asStr_nonempty]
  have hlong : (Json.field (d.toJson p ++ [("fullname", Json.str fullname)])
    "longname").asStr.getD "" =
      d.longName := by
    rw [Json.field, hrow, lookup_typeFields (by decide)]
    simp [asStr_nonempty]
  have ht : (Json.field (d.toJson p ++ [("fullname", Json.str fullname)]) "type").asStr =
      some d.nodeType.text := by
    rw [Json.field, hrow]
    simp [Json.asStr]
  have hu : (Json.field (d.toJson p ++ [("fullname", Json.str fullname)]) "unit").asStr =
      d.unit.text := by
    rw [Json.field, hrow, lookup_typeFields (by decide)]
    cases d.unit.text with
    | none => simp [Json.asStr]
    | some text => simp [Json.asStr]
  have hread : (Json.field (d.toJson p ++ [("fullname", Json.str fullname)])
      "read_only").asBool.getD false = d.readOnly := by
    rw [Json.field, hrow, lookup_typeFields (by decide)]
    cases d.readOnly with
    | false => simp [Json.asBool]
    | true => simp [Json.asBool]
  rw [defFromSweepRow, ht, hu, rowType_text htype, rowUnit_text hunit, hid, asI32_toInt,
    hindex, hname,
    hlong, hread, hfield "minfloat" (by decide), hfield "maxfloat" (by decide),
    hfield "steps" (by decide), hfield "minint" (by decide), hfield "maxint" (by decide),
    hfield "maxstringlen" (by decide), hfield "items" (by decide), hkey "minfloat" (by decide)]
  rfl

theorem exists_typeBytes (h : d.Parsed) : ∃ bytes, d.typeBytes = .ok bytes := by
  obtain ⟨body, hbody⟩ := h.writable
  obtain ⟨name, -, hbody⟩ := Except.bind_eq_ok.1 hbody
  obtain ⟨longName, -, hbody⟩ := Except.bind_eq_ok.1 hbody
  obtain ⟨fields, hfields, -⟩ := Except.bind_eq_ok.1 hbody
  exact ⟨fields, hfields⟩

theorem get_item (value : Json) (longItem : String) :
    (Json.obj ([("item", value)] ++ optional "longitem" .str (nonempty longItem))).get
      "item" = value ∧
      ((Json.obj ([("item", value)] ++ optional "longitem" .str (nonempty longItem))).get
        "longitem").asStr.getD "" = longItem := by
  constructor
  · simp [Json.get, Json.field]
  · rw [Json.get, Json.field, List.lookup_append, lookup_single, lookup_optional]
    simp [asStr_nonempty]

theorem stringItems_toJson (items : List StringEnumItem) :
    (items.map StringEnumItem.toJson).map (fun item =>
      (⟨(item.get "item").asStr.getD "", (item.get "longitem").asStr.getD ""⟩ : StringEnumItem)) =
      items := by
  rw [List.map_map]
  refine (List.map_congr_left fun i _ => ?_).trans (List.map_id items)
  obtain ⟨hitem, hlong⟩ := get_item (.str i.item) i.longItem
  rw [Function.comp_apply, StringEnumItem.toJson, hitem, hlong]
  rfl

theorem floatItems_toJson (hp : ∀ x : F32, x.isFinite = true → p.parse (p.write x) = some x)
    {items : List FloatEnumItem} (h : ∀ i ∈ items, i.item.isFinite = true) :
    (items.map (FloatEnumItem.toJson p)).map (fun item =>
      (⟨jsonF32 p (item.get "item"), (item.get "longitem").asStr.getD ""⟩ : FloatEnumItem)) =
      items := by
  rw [List.map_map]
  refine (List.map_congr_left fun i hi => ?_).trans (List.map_id items)
  obtain ⟨hitem, hlong⟩ := get_item (p.json i.item) i.longItem
  rw [Function.comp_apply, FloatEnumItem.toJson, hitem, hlong, jsonF32_json hp (h i hi)]
  rfl

theorem withTypeFields_range (hp : ∀ x : F32, x.isFinite = true → p.parse (p.write x) = some x)
    (ht : d.nodeType = .linearFloat ∨ d.nodeType = .logarithmicFloat ∨ d.nodeType = .faderLevel)
    {min max : F32} {steps : Int32} (hmin : d.minFloat = some min) (hmax : d.maxFloat = some max)
    (hsteps : d.steps = some steps) (hminFinite : min.isFinite = true)
    (hmaxFinite : max.isFinite = true) : withTypeFields p d (d.typeFields p) = d.canonical [] := by
  have hreadMin := jsonF32_json hp hminFinite
  have hreadMax := jsonF32_json hp hmaxFinite
  rcases ht with ht | ht | ht
  all_goals simp [withTypeFields, WingNodeDef.typeFields, WingNodeDef.canonical,
    WingNodeDef.base, ht,
    onlyIf, hmin, hmax, hsteps, Json.field, List.lookup_append, lookup_optional, hreadMin, hreadMax,
    asI32_toInt]

theorem withTypeFields_typeFields (hp : ∀ x : F32, x.isFinite = true → p.parse (p.write x) = some x)
    (hd : Sweepable d) : withTypeFields p d (d.typeFields p) = d.canonical [] := by
  obtain ⟨bytes, hbytes⟩ := exists_typeBytes hd.parsed
  -- A type that requires a range has one, and it is finite.
  have hrange : ∀ {f : F32 → F32 → Int32 → Result (List UInt8)},
      (d.nodeType = .linearFloat ∨ d.nodeType = .logarithmicFloat ∨ d.nodeType = .faderLevel) →
      (do
        let min ← required d.minFloat
        let max ← required d.maxFloat
        let steps ← required d.steps
        f min max steps) = .ok bytes → withTypeFields p d (d.typeFields p) = d.canonical [] := by
    intro f ht h
    obtain ⟨min, hmin, h⟩ := Except.bind_eq_ok.1 h
    obtain ⟨max, hmax, h⟩ := Except.bind_eq_ok.1 h
    obtain ⟨steps, hsteps, -⟩ := Except.bind_eq_ok.1 h
    have hmin := WingNodeDef.required_eq_ok hmin
    have hmax := WingNodeDef.required_eq_ok hmax
    exact withTypeFields_range hp ht hmin hmax (WingNodeDef.required_eq_ok hsteps)
      (hd.minFloat min hmin) (hd.maxFloat max hmax)
  cases ht : d.nodeType with
  | unknown n =>
    have htype := hd.type
    rw [ht] at htype
    cases htype
  | node =>
    simp [withTypeFields, WingNodeDef.typeFields, WingNodeDef.canonical,
      WingNodeDef.base, ht, onlyIf]
  | integer =>
    rw [WingNodeDef.typeBytes, ht] at hbytes
    obtain ⟨min, hmin, hbytes⟩ := Except.bind_eq_ok.1 hbytes
    obtain ⟨max, hmax, -⟩ := Except.bind_eq_ok.1 hbytes
    simp [withTypeFields, WingNodeDef.typeFields, WingNodeDef.canonical,
      WingNodeDef.base, ht, onlyIf,
      WingNodeDef.required_eq_ok hmin, WingNodeDef.required_eq_ok hmax, Json.field,
      List.lookup_append,
      lookup_optional, asI32_toInt]
  | string =>
    rw [WingNodeDef.typeBytes, ht] at hbytes
    obtain ⟨len, hlen, -⟩ := Except.bind_eq_ok.1 hbytes
    simp [withTypeFields, WingNodeDef.typeFields, WingNodeDef.canonical,
      WingNodeDef.base, ht, onlyIf,
      WingNodeDef.required_eq_ok hlen, Json.field, lookup_optional, asU16_toNat]
  | linearFloat =>
    rw [WingNodeDef.typeBytes, ht] at hbytes
    exact hrange (Or.inl ht) hbytes
  | logarithmicFloat =>
    rw [WingNodeDef.typeBytes, ht] at hbytes
    exact hrange (Or.inr (Or.inl ht)) hbytes
  | faderLevel =>
    rw [WingNodeDef.typeBytes, ht] at hbytes
    -- The range of a fader is there or it is not.
    cases hmin : d.minFloat with
    | none =>
      cases hmax : d.maxFloat with
      | some max => simp [hmin, hmax] at hbytes
      | none =>
        cases hsteps : d.steps with
        | some steps => simp [hmin, hmax, hsteps] at hbytes
        | none =>
          simp [withTypeFields, WingNodeDef.typeFields, WingNodeDef.canonical, WingNodeDef.base, ht,
            onlyIf, hmin, hmax, hsteps, optional]
    | some min =>
      cases hmax : d.maxFloat with
      | none => simp [hmin, hmax] at hbytes
      | some max =>
        cases hsteps : d.steps with
        | none => simp [hmin, hmax, hsteps] at hbytes
        | some steps =>
          exact withTypeFields_range hp (Or.inr (Or.inr ht)) hmin hmax hsteps (hd.minFloat min hmin)
            (hd.maxFloat max hmax)
  | stringEnum =>
    rw [WingNodeDef.typeBytes, ht] at hbytes
    obtain ⟨items, hitems, -⟩ := Except.bind_eq_ok.1 hbytes
    have hread := stringItems_toJson items
    simp only [withTypeFields, WingNodeDef.typeFields, WingNodeDef.canonical, WingNodeDef.base, ht,
      onlyIf, WingNodeDef.required_eq_ok hitems, Json.field, lookup_optional, Json.members]
    simp [hread]
  | floatEnum =>
    rw [WingNodeDef.typeBytes, ht] at hbytes
    obtain ⟨items, hitems, -⟩ := Except.bind_eq_ok.1 hbytes
    have hread := floatItems_toJson hp (hd.floatEnum items (WingNodeDef.required_eq_ok hitems))
    simp only [withTypeFields, WingNodeDef.typeFields, WingNodeDef.canonical, WingNodeDef.base, ht,
      onlyIf, WingNodeDef.required_eq_ok hitems, Json.field, lookup_optional, Json.members]
    simp [hread]

/-- **A row** gives back the canonical form of its definition, below the parent it is given. -/
theorem defFromSweepRow_toJson (hp : ∀ x : F32, x.isFinite = true → p.parse (p.write x) = some x)
    (hd : Sweepable d) (fullname : String) (parentId : Int32) :
    defFromSweepRow p (d.toJson p ++ [("fullname", Json.str fullname)]) parentId =
      .ok { d.canonical [] with parentId := parentId } := by
  rw [defFromSweepRow_head hd.type hd.unit, withTypeFields_typeFields hp hd]

end Rows

end Wingschema

end LibWing
