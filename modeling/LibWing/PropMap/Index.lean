import LibWing.Node.Def
import Mathlib.Data.Nat.Bitwise
import Mathlib.Data.Nat.Log

/-!
# The index of the property map

The property map is embedded as a blob of records and lookup tables, and read in place:

* `PropIndex.new` : the header of a blob and the parts behind it;
* `PropIndex.raw` : the record of an ordinal, and `name`, `idAt`, `definition` : what is in it;
* `PropIndex.find` : the ordinal of a name, by hashing and probing;
* `PropIndex.get`, `idOf`, `iter`, `byId` : the lookups.

Reading outside of a slice panics, and so do the checks of the source that fail; in both cases the
result here is `none`.  A definition is parsed when it is first asked for and kept; here it is
parsed each time.
-/

namespace LibWing

open BigEndian

/-! ### Reading slices -/

/-- `&bytes[start..start + len]`. -/
def slice (bytes : List UInt8) (start len : ℕ) : Option (List UInt8) :=
  if start + len ≤ bytes.length then some ((bytes.drop start).take len) else none

/-- `be32`. -/
def be32 (bytes : List UInt8) (i : ℕ) : Option ℕ := do
  let a ← bytes[i]?
  let b ← bytes[i + 1]?
  let c ← bytes[i + 2]?
  let d ← bytes[i + 3]?
  return (fromBe32 a b c d).toNat

/-- `be16`. -/
def be16 (bytes : List UInt8) (i : ℕ) : Option ℕ := do
  let a ← bytes[i]?
  let b ← bytes[i + 1]?
  return (fromBe16 a b).toNat

/-- The id of a definition, which follows the id of its parent. -/
def definitionId (bytes : List UInt8) : Option Int32 := do
  let a ← bytes[4]?
  let b ← bytes[5]?
  let c ← bytes[6]?
  let d ← bytes[7]?
  return i32OfBytes a b c d

/-- `WingNodeDef::from_bytes_without_raw`. -/
def WingNodeDef.fromBytesWithoutRaw (raw : List UInt8) : Result WingNodeDef := do
  let (d, _) ← Cursor.readDef [] raw
  return d

/-! ### Hashing and searching -/

/-- `name_hash`, in the library and in the generator: FNV-1a, folded. -/
def nameHash (name : List UInt8) : ℕ :=
  let h := name.foldl (fun (h : UInt64) b => (h ^^^ b.toUInt64) * 0x100000001b3) 0xcbf29ce484222325
  (h ^^^ (h >>> 32)).toNat

/-- `EMPTY`. -/
def emptySlot : ℕ := 0xffffffff

/-- `usize::next_power_of_two`. -/
def nextPowerOfTwo (n : ℕ) : ℕ := 2 ^ Nat.clog 2 n

/-- `hash_slots`. -/
def hashSlots (count : ℕ) : ℕ := if count = 0 then 0 else nextPowerOfTwo (count * 2)

/-- The loop of `partition_point`; the interval gets shorter each time. -/
def partitionLoop (pred : ℕ → Option Bool) : ℕ → ℕ → ℕ → Option ℕ
  | 0, _, _ => none
  | fuel + 1, lo, hi =>
    if lo < hi then do
      let mid := lo + (hi - lo) / 2
      if ← pred mid then partitionLoop pred fuel (mid + 1) hi
      else partitionLoop pred fuel lo mid
    else some lo

/-- `partition_point`. -/
def partitionPoint (len : ℕ) (pred : ℕ → Option Bool) : Option ℕ :=
  partitionLoop pred (len + 1) 0 len

/-! ### The index -/

/-- `MAGIC`: `WPM2`. -/
def propMapMagic : List UInt8 := [0x57, 0x50, 0x4d, 0x32]

/-- `HEADER_LEN`. -/
def headerLen : ℕ := 12

structure PropIndex where
  /-- The records, one after the other. -/
  entries : List UInt8
  /-- Where each of them begins. -/
  offsets : List UInt8
  /-- Their ordinals, in the order of the ids. -/
  byIdTable : List UInt8
  /-- The table of their names. -/
  hash : List UInt8
  /-- The number of entries (`defs.len()`). -/
  len : ℕ

namespace PropIndex

/-- `PropIndex::new`. -/
def new (data : List UInt8) : Option PropIndex := do
  guard (data.length ≥ headerLen ∧ data.take 4 = propMapMagic)
  let count ← be32 data 4
  let entriesLen ← be32 data 8
  guard (data.length = headerLen + entriesLen + count * 8 + hashSlots count * 4)
  let body := data.drop headerLen
  let tables := body.drop entriesLen
  let rest := tables.drop (count * 4)
  return {
    entries := body.take entriesLen
    offsets := tables.take (count * 4)
    byIdTable := rest.take (count * 4)
    hash := rest.drop (count * 4)
    len := count }

variable (ix : PropIndex)

/-- The bytes of the name and of the definition of the entry at `ordinal`. -/
def raw (ordinal : ℕ) : Option (List UInt8 × List UInt8) := do
  let offset ← be32 ix.offsets (ordinal * 4)
  -- Skip the flag byte.
  let i := offset + 1
  let nameLen ← be16 ix.entries i
  let i := i + 2
  let name ← slice ix.entries i nameLen
  let i := i + nameLen
  let defLen ← be16 ix.entries i
  let i := i + 2
  let bytes ← slice ix.entries i defLen
  return (name, bytes)

/-- `name`. -/
def name (ordinal : ℕ) : Option String := do
  let (name, _) ← ix.raw ordinal
  fromUtf8 name

/-- `id_at`. -/
def idAt (ordinal : ℕ) : Option Int32 := do
  let (_, bytes) ← ix.raw ordinal
  definitionId bytes

/-- `def`. -/
def definition (ordinal : ℕ) : Option WingNodeDef := do
  let (_, bytes) ← ix.raw ordinal
  (WingNodeDef.fromBytesWithoutRaw bytes).toOption

/-- The loop of `find`.  There are `slots` slots, so after as many steps it is back where it was and
will not end. -/
def findLoop (slots : ℕ) (name : List UInt8) : ℕ → ℕ → Option (Option ℕ)
  | 0, _ => none
  | fuel + 1, slot => do
    let ordinal ← be32 ix.hash (slot * 4)
    if ordinal = emptySlot then return none
    else
      let (entry, _) ← ix.raw ordinal
      if entry = name then return some ordinal
      else findLoop slots name fuel ((slot + 1) &&& (slots - 1))

/-- `find`. -/
def find (name : String) : Option (Option ℕ) :=
  let slots := ix.hash.length / 4
  if slots = 0 then some none
  else ix.findLoop slots (utf8 name) slots (nameHash (utf8 name) &&& (slots - 1))

/-- `get`. -/
def get (name : String) : Option (Option WingNodeDef) := do
  match ← ix.find name with
  | none => return none
  | some ordinal => return some (← ix.definition ordinal)

/-- `id_of`. -/
def idOf (name : String) : Option (Option Int32) := do
  match ← ix.find name with
  | none => return none
  | some ordinal => return some (← ix.idAt ordinal)

/-- The name and the definition of an entry. -/
def entry (ordinal : ℕ) : Option (String × WingNodeDef) := do
  let name ← ix.name ordinal
  let d ← ix.definition ordinal
  return (name, d)

/-- `iter`. -/
def iter : Option (List (String × WingNodeDef)) := (List.range ix.len).mapM ix.entry

/-- The `k`-th ordinal in the order of the ids. -/
def ordinalById (k : ℕ) : Option ℕ := be32 ix.byIdTable (k * 4)

/-- Its id. -/
def idById (k : ℕ) : Option Int32 := do ix.idAt (← ix.ordinalById k)

/-- `by_id`. -/
def byId (id : Int32) : Option (Option (List (String × WingNodeDef))) := do
  let start ← partitionPoint ix.len fun k => do
    let other ← ix.idById k
    return decide (other < id)
  let stop ← partitionPoint ix.len fun k => do
    let other ← ix.idById k
    return decide (other ≤ id)
  if start < stop then
    let found ← (List.range' start (stop - start)).mapM fun k => do ix.entry (← ix.ordinalById k)
    return some found
  else return none

end PropIndex

end LibWing
