import LibWing.Lib.Except
import LibWing.Native.Value

/-!
# Node definitions

`WingNodeDef` describes one node of the console's parameter tree.  A definition travels as a body
of bytes: its ids, index and names, sixteen flag bits and the fields its type calls for.

* `WingNodeDef.toWireBytes` : the body of a definition, from its fields;
* `WingNodeDef.fromBytes` : the definition in a body, with the body kept as `raw`.

The reader of the source walks a cursor over the body; here the cursor is the list of bytes not yet
read.
-/

namespace LibWing

open BigEndian

/-- A node's value kind. -/
inductive NodeType where
  | node
  | linearFloat
  | logarithmicFloat
  | faderLevel
  | integer
  | stringEnum
  | floatEnum
  | string
  /-- A type nibble this version does not know. -/
  | unknown (nibble : UInt8)
  deriving DecidableEq, Repr

/-- A node's engineering unit. -/
inductive NodeUnit where
  | none
  | db
  | percent
  | milliseconds
  | hertz
  | meters
  | seconds
  | octaves
  /-- A unit nibble this version does not know. -/
  | unknown (nibble : UInt8)
  deriving DecidableEq, Repr

structure StringEnumItem where
  /-- The name. -/
  item : String
  /-- The label, or nothing. -/
  longItem : String
  deriving DecidableEq, Repr

structure FloatEnumItem where
  /-- The value. -/
  item : F32
  /-- The label, or nothing. -/
  longItem : String
  deriving DecidableEq, Repr

structure WingNodeDef where
  /-- The node. -/
  id : Int32
  /-- The node it is below. -/
  parentId : Int32
  /-- Where it is among the nodes there. -/
  index : UInt16
  /-- Its name. -/
  name : String
  /-- A label, or nothing. -/
  longName : String
  /-- What kind of value it has. -/
  nodeType : NodeType
  /-- The unit of its value. -/
  unit : NodeUnit
  /-- It cannot be written. -/
  readOnly : Bool
  /-- The least float. -/
  minFloat : Option F32
  /-- The greatest float. -/
  maxFloat : Option F32
  /-- How many steps the range has. -/
  steps : Option Int32
  /-- The least integer. -/
  minInt : Option Int32
  /-- The greatest integer. -/
  maxInt : Option Int32
  /-- How long a text may be. -/
  maxStringLen : Option UInt16
  /-- The items of an enumeration of names. -/
  stringEnum : Option (List StringEnumItem)
  /-- The items of an enumeration of floats. -/
  floatEnum : Option (List FloatEnumItem)
  /-- The bytes the definition was parsed from. -/
  raw : List UInt8
  deriving DecidableEq, Repr

/-- `node_type_nibble`. -/
def NodeType.nibble : NodeType → UInt8
  | node => 0
  | linearFloat => 1
  | logarithmicFloat => 2
  | faderLevel => 3
  | integer => 4
  | stringEnum => 5
  | floatEnum => 6
  | string => 7
  | unknown value => value &&& 0x0f

/-- The type a nibble stands for. -/
def NodeType.ofNibble (nibble : UInt8) : NodeType :=
  if nibble = 0 then node
  else if nibble = 1 then linearFloat
  else if nibble = 2 then logarithmicFloat
  else if nibble = 3 then faderLevel
  else if nibble = 4 then integer
  else if nibble = 5 then stringEnum
  else if nibble = 6 then floatEnum
  else if nibble = 7 then string
  else unknown nibble

/-- The nibble of a unit. -/
def NodeUnit.nibble : NodeUnit → UInt8
  | none => 0
  | db => 1
  | percent => 2
  | milliseconds => 3
  | hertz => 4
  | meters => 5
  | seconds => 6
  | octaves => 7
  | unknown value => value &&& 0x0f

/-- The unit a nibble stands for. -/
def NodeUnit.ofNibble (nibble : UInt8) : NodeUnit :=
  if nibble = 0 then none
  else if nibble = 1 then db
  else if nibble = 2 then percent
  else if nibble = 3 then milliseconds
  else if nibble = 4 then hertz
  else if nibble = 5 then meters
  else if nibble = 6 then seconds
  else if nibble = 7 then octaves
  else unknown nibble

/-! ### Writing a body -/

/-- `push_short_string`, as the bytes it appends. -/
def shortString (value : String) : Result (List UInt8) :=
  if (utf8 value).length ≤ 255 then .ok (UInt8.ofNat (utf8 value).length :: utf8 value)
  else .error .invalidInput

/-- `ok_or(Error::InvalidInput)`. -/
def required {α : Type} : Option α → Result α
  | none => .error .invalidInput
  | some a => .ok a

/-- `u16::try_from(items.len())`, as bytes. -/
def itemCount (n : ℕ) : Result (List UInt8) :=
  if n ≤ 65535 then .ok (toBe16 (UInt16.ofNat n)) else .error .invalidInput

/-- The loop that writes the items of an enumeration. -/
def writeMany {α : Type} (item : α → Result (List UInt8)) : List α → Result (List UInt8)
  | [] => .ok []
  | i :: items => do
    let bytes ← item i
    let rest ← writeMany item items
    return bytes ++ rest

/-- One item of a string enumeration. -/
def stringItem (i : StringEnumItem) : Result (List UInt8) := do
  let item ← shortString i.item
  let longItem ← shortString i.longItem
  return item ++ longItem

/-- One item of a float enumeration. -/
def floatItem (i : FloatEnumItem) : Result (List UInt8) := do
  let longItem ← shortString i.longItem
  return f32Bytes i.item ++ longItem

namespace WingNodeDef

/-- The flag bits: type, unit and the read-only bit. -/
def flags (d : WingNodeDef) : UInt16 :=
  let flags := (d.nodeType.nibble.toUInt16 <<< 4) ||| d.unit.nibble.toUInt16
  if d.readOnly then flags ||| ((1 : UInt16) <<< 9) else flags

/-- The fields of `to_wire_bytes` that depend on the type. -/
def typeBytes (d : WingNodeDef) : Result (List UInt8) :=
  match d.nodeType with
  | .node | .unknown _ => .ok []
  | .string => do
    let len ← required d.maxStringLen
    return toBe16 len
  | .linearFloat | .logarithmicFloat => do
    let min ← required d.minFloat
    let max ← required d.maxFloat
    let steps ← required d.steps
    return f32Bytes min ++ f32Bytes max ++ i32Bytes steps
  | .faderLevel =>
    match d.minFloat, d.maxFloat, d.steps with
    | some min, some max, some steps => .ok (f32Bytes min ++ f32Bytes max ++ i32Bytes steps)
    | none, none, none => .ok []
    | _, _, _ => .error .invalidInput
  | .integer => do
    let min ← required d.minInt
    let max ← required d.maxInt
    return i32Bytes min ++ i32Bytes max
  | .stringEnum => do
    let items ← required d.stringEnum
    let count ← itemCount items.length
    let bytes ← writeMany stringItem items
    return count ++ bytes
  | .floatEnum => do
    let items ← required d.floatEnum
    let count ← itemCount items.length
    let bytes ← writeMany floatItem items
    return count ++ bytes

/-- Serialize a definition from its metadata fields. -/
def toWireBytes (d : WingNodeDef) : Result (List UInt8) := do
  let name ← shortString d.name
  let longName ← shortString d.longName
  let fields ← d.typeBytes
  return i32Bytes d.parentId ++ i32Bytes d.id ++ toBe16 d.index ++ name ++ longName ++
    toBe16 d.flags ++ fields

end WingNodeDef

/-! ### Reading a body -/

/-- A reader of a body: the state is what is left of it. -/
abbrev Cursor (α : Type) := StateT (List UInt8) (Except Error) α

namespace Cursor

/-- `take`. -/
def take (len : ℕ) : Cursor (List UInt8) := fun rest =>
  if rest.length < len then .error .invalidData else .ok (rest.take len, rest.drop len)

/-- `read_u8`. -/
def readU8 : Cursor UInt8 := fun
  | a :: rest => .ok (a, rest)
  | _ => .error .invalidData

/-- `read_u16`. -/
def readU16 : Cursor UInt16 := fun
  | a :: b :: rest => .ok (fromBe16 a b, rest)
  | _ => .error .invalidData

/-- `read_i32`. -/
def readI32 : Cursor Int32 := fun
  | a :: b :: c :: d :: rest => .ok (i32OfBytes a b c d, rest)
  | _ => .error .invalidData

/-- `read_f32`. -/
def readF32 : Cursor F32 := fun
  | a :: b :: c :: d :: rest => .ok (f32OfBytes a b c d, rest)
  | _ => .error .invalidData

/-- `read_string`. -/
def readString (len : ℕ) : Cursor String := do
  let bytes ← take len
  match fromUtf8 bytes with
  | some value => return value
  | none => throw .invalidData

/-- A string with its length in front. -/
def readShortString : Cursor String := do
  let len ← readU8
  readString len.toNat

/-- The loop that reads the items of an enumeration. -/
def readMany {α : Type} (item : Cursor α) : ℕ → Cursor (List α)
  | 0 => return []
  | n + 1 => do
    let i ← item
    let items ← readMany item n
    return i :: items

/-- One item of a string enumeration. -/
def readStringItem : Cursor StringEnumItem := do
  let item ← readShortString
  let longItem ← readShortString
  return ⟨item, longItem⟩

/-- One item of a float enumeration. -/
def readFloatItem : Cursor FloatEnumItem := do
  let item ← readF32
  let longItem ← readShortString
  return ⟨item, longItem⟩

/-- The fields `from_bytes_inner` reads by the type, into a definition that has none of them. -/
def readFields (d : WingNodeDef) : Cursor WingNodeDef :=
  match d.nodeType with
  | .node | .unknown _ => return d
  | .string => do
    let len ← readU16
    return { d with maxStringLen := some len }
  | .linearFloat | .logarithmicFloat => do
    let min ← readF32
    let max ← readF32
    let steps ← readI32
    return { d with minFloat := some min, maxFloat := some max, steps := some steps }
  | .faderLevel => do
    -- The embedded property map predates the range, so it is read only when it is there.
    if (← get).length ≥ 12 then
      let min ← readF32
      let max ← readF32
      let steps ← readI32
      return { d with minFloat := some min, maxFloat := some max, steps := some steps }
    else return d
  | .integer => do
    let min ← readI32
    let max ← readI32
    return { d with minInt := some min, maxInt := some max }
  | .stringEnum => do
    let num ← readU16
    let items ← readMany readStringItem num.toNat
    return { d with stringEnum := some items }
  | .floatEnum => do
    let num ← readU16
    let items ← readMany readFloatItem num.toNat
    return { d with floatEnum := some items }

/-- `from_bytes_inner`, with the bytes to keep as `raw`. -/
def readDef (raw : List UInt8) : Cursor WingNodeDef := do
  let parentId ← readI32
  let id ← readI32
  let index ← readU16
  let name ← readShortString
  let longName ← readShortString
  let flags ← readU16
  readFields
    { id, parentId, index, name, longName
      nodeType := .ofNibble ((flags >>> 4) &&& 0x0f).toUInt8
      unit := .ofNibble (flags &&& 0x0f).toUInt8
      readOnly := ((flags >>> 9) &&& 0x01) ≠ 0
      minFloat := none, maxFloat := none, steps := none, minInt := none, maxInt := none
      maxStringLen := none, stringEnum := none, floatEnum := none, raw }

end Cursor

/-- `WingNodeDef::from_bytes` (and `try_from_bytes`): bytes after the last field are ignored. -/
def WingNodeDef.fromBytes (raw : List UInt8) : Result WingNodeDef := do
  let (d, _) ← Cursor.readDef raw raw
  return d

end LibWing
