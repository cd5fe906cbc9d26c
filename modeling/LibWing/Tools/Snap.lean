import LibWing.Session.Dump
import LibWing.Tools.Publish

/-!
# Values of leaves

`wingdrive` takes the value of a leaf in whichever encoding it carries, for comparison before and
after a restore, and writes such values to a file with their paths.

* `Snap` : the value, with `snap`, `snapForDef`, `restorableSnapForDef` : how it is taken;
* `Texts` : how the standard library writes values as text;
* `pathValues`, `writePathValues` : the lines of `path` and `value`, and the file of them.
-/

namespace LibWing

open Session

/-! ### Text -/

/-- How the standard library writes values as text. -/
structure Texts where
  /-- `Display` of `std::io::Error`. -/
  io : IoErrorKind → String
  /-- `Display` of `f32`. -/
  float : F32 → String
  /-- `Debug` of `f32`. -/
  floatDebug : F32 → String
  /-- `Debug` of `String`. -/
  stringDebug : String → String

/-- `Display` of `crate::Error`. -/
def Texts.error (t : Texts) : Error → String
  | .io kind => "IO error: " ++ t.io kind
  | .invalidData => "Invalid data received"
  | .invalidInput => "Invalid input"
  | .connectionError => "Connection error"
  | .meterNotInitialized => "Metering has not been initialized"
  | .timeout => "Operation timed out waiting for a response"
  | .reconnecting => "Interrupted by a reconnect on another handle; retry once it completes"

/-- `f32::is_finite`. -/
def F32.isFinite (x : F32) : Bool := decide (x.bits &&& 0x7fffffff < 0x7f800000)

/-! ### Enumerations -/

/-- `RawEnumValue`. -/
inductive RawEnumValue where
  | index (index : Int32)
  | float (value : F32)
  | other (value : String)

/-- `EnumDecode`. -/
inductive EnumDecode where
  | stringEnum (item longItem : String) (index : ℕ)
  | floatEnum (item : F32) (longItem : String) (index : ℕ)
  | unknown (raw : RawEnumValue)

namespace WingNodeData

/-- `get_string`. -/
def getString (t : Texts) (data : WingNodeData) : String :=
  match data.stringValue, data.floatValue, data.intValue with
  | some value, _, _ => value
  | none, some value, _ => t.float value
  | none, none, some value => toString value.toInt
  | none, none, none => ""

/-- `decode_enum`. -/
def decodeEnum (t : Texts) (d : WingNodeDef) (data : WingNodeData) : EnumDecode :=
  match d.nodeType with
  | .stringEnum =>
    match d.stringEnum, data.intValue with
    | some items, some index =>
      match if 0 ≤ index.toInt then items[index.toInt.toNat]? else none with
      | some item => .stringEnum item.item item.longItem index.toInt.toNat
      | none => .unknown (.index index)
    | _, _ => .unknown (.other (data.getString t))
  | .floatEnum =>
    match d.floatEnum, data.floatValue with
    | some items, some value =>
      match items.zipIdx.find? fun x => x.1.item.eq value with
      | some (item, index) => .floatEnum item.item item.longItem index
      | none => .unknown (.float value)
    | _, _ => .unknown (.other (data.getString t))
  | _ => .unknown (.other (data.getString t))

/-- `display_string`. -/
def displayString (t : Texts) (data : WingNodeData) (d : WingNodeDef) : String :=
  match data.decodeEnum t d with
  | .stringEnum item _ _ => item
  | .floatEnum _ longItem _ => longItem
  | .unknown _ => data.getString t

end WingNodeData

namespace Wingdrive

/-! ### Values -/

/-- `Snap`. -/
inductive Snap where
  | str (value : String)
  | float (value : F32)
  | int (value : Int32)
  deriving DecidableEq

/-- `==` of values. -/
def Snap.eq : Snap → Snap → Bool
  | str a, str b => a = b
  | float a, float b => a.eq b
  | int a, int b => a = b
  | _, _ => false

/-- Whether the value is not a float that `is_finite` rejects. -/
def Snap.isFinite : Snap → Bool
  | float value => value.isFinite
  | _ => true

/-- `Debug` of values. -/
def Snap.debug (t : Texts) : Snap → String
  | str value => "Str(" ++ t.stringDebug value ++ ")"
  | float value => "Float(" ++ t.floatDebug value ++ ")"
  | int value => "Int(" ++ toString value.toInt ++ ")"

/-- `snap`. -/
def snap (data : WingNodeData) : Snap :=
  match data.stringValue, data.floatValue with
  | some value, _ => .str value
  | none, some value => .float value
  | none, none => .int (data.intValue.getD 0)

/-- `snap_for_def`. -/
def snapForDef (t : Texts) (data : WingNodeData) (d : WingNodeDef) : Snap :=
  if d.nodeType = .stringEnum then .str (data.displayString t d) else snap data

/-- `restorable_snap_for_def`. -/
def restorableSnapForDef (t : Texts) (data : WingNodeData) (d : WingNodeDef) : Except String Snap :=
  if d.nodeType ≠ .stringEnum then .ok (snap data)
  else match data.stringEnumItem d with
    | some item => .ok (.str item)
    | none => .error ("StringEnum value " ++ t.stringDebug (data.getString t) ++
        " is neither a known index nor a known label")

/-! ### Files of values -/

/-- A character of a JSON string. -/
def jsonEscapeChar (ch : Char) : String :=
  if ch = '\"' then "\\\""
  else if ch = '\\' then "\\\\"
  else if ch = '\n' then "\\n"
  else if ch = '\r' then "\\r"
  else if ch = '\t' then "\\t"
  else if ch.toNat < 0x20 then
    "\\u00" ++ String.ofList [Nat.digitChar (ch.toNat / 16), Nat.digitChar (ch.toNat % 16)]
  else String.ofList [ch]

/-- `json_escape`. -/
def jsonEscape (input : String) : String := String.join (input.toList.map jsonEscapeChar)

/-- The value of a line; a float that is not finite has none. -/
def encodeSnap (t : Texts) : Snap → Option String
  | .int v => some ("\x7b\"type\":\"int\",\"value\":" ++ toString v.toInt ++ "\x7d")
  | .float v =>
    if v.isFinite then some ("\x7b\"type\":\"float\",\"value\":" ++ t.float v ++ "\x7d") else none
  | .str s => some ("\x7b\"type\":\"string\",\"value\":\"" ++ jsonEscape s ++ "\"\x7d")

/-- A line. -/
def pathLine (node encoded : String) : String :=
  "\x7b\"path\":\"" ++ jsonEscape node ++ "\",\"value\":" ++ encoded ++ "\x7d\n"

/-- The contents that `write_path_values` writes. -/
def pathValues (t : Texts) : List (String × Snap) → String
  | [] => ""
  | (node, value) :: values =>
    match encodeSnap t value with
    | none => pathValues t values
    | some encoded => pathLine node encoded ++ pathValues t values

/-- `write_path_values`. -/
def writePathValues (t : Texts) (env : AtomicWrite.Env) (path : AtomicWrite.FilePath)
    (values : List (String × Snap)) : AtomicWrite.Publication PUnit :=
  AtomicWrite.publishOutputs env [(path, utf8 (pathValues t values))]

variable {t : Texts}

/-- Values that all have an encoding are all written. -/
theorem pathValues_eq_join {values : List (String × Snap)} {encoded : List String}
    (h : List.Forall₂ (fun x e => encodeSnap t x.2 = some e) values encoded) :
    pathValues t values = String.join
      (List.zipWith (fun x e => pathLine x.1 e) values encoded) := by
  induction h with
  | nil => rfl
  | @cons x e values encoded hx _ ih =>
    obtain ⟨node, value⟩ := x
    rw [pathValues, hx, List.zipWith_cons_cons, String.join_cons, ih]

end Wingdrive

end LibWing
