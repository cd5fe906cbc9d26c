import LibWing.PropMap.Index

/-!
# The generator of the property map

`wingschema` collects the records of a sweep and writes the blob the library embeds: the records as
they are, their offsets in the order of the names, their ordinals in the order of the ids, and a
hash table of the names.

* `pushEntry` : the bytes of a record;
* `countEntries` : the number of records in a sequence of bytes;
* `scanEntries` : the records in a sequence of bytes, with their offsets;
* `sortByName`, `idOrder`, `hashTable` : the three tables;
* `writePropmapBin` : the blob, or `none` where the source panics or does not end.
-/

namespace LibWing

open BigEndian

/-- `push_entry`: what it appends. -/
def pushEntry (flag : UInt8) (fullname : String) (bytes : List UInt8) : List UInt8 :=
  [flag] ++ (toBe16 (UInt16.ofNat (utf8 fullname).length) ++ (utf8 fullname ++
    (toBe16 (UInt16.ofNat bytes.length) ++ bytes)))

namespace Wingschema

/-- The loop of `count_entries`, from `i` on. -/
def countLoop (raw : List UInt8) : ℕ → ℕ → ℕ → Option ℕ
  | 0, _, _ => none
  | fuel + 1, i, count =>
    if i < raw.length then do
      let nameLen ← be16 raw (i + 1)
      let i := i + (3 + nameLen)
      let defLen ← be16 raw i
      let i := i + (2 + defLen)
      countLoop raw fuel i (count + 1)
    else some count

/-- `count_entries`. -/
def countEntries (raw : List UInt8) : Option ℕ := countLoop raw (raw.length + 1) 0 0

/-- What `write_propmap_bin` keeps of a record. -/
structure Scanned where
  /-- Where the record begins. -/
  offset : UInt32
  /-- Its name. -/
  name : List UInt8
  /-- The id of its definition. -/
  id : Int32
  deriving DecidableEq

/-- The loop over the records, from offset `i` on. -/
def scanEntries (raw : List UInt8) : ℕ → ℕ → Option (List Scanned)
  | 0, _ => none
  | fuel + 1, i =>
    if i < raw.length then do
      let offset := i
      let nameLen ← be16 raw (i + 1)
      let name ← slice raw (i + 3) nameLen
      let i := i + (3 + nameLen)
      let defLen ← be16 raw i
      let bytes ← slice raw (i + 2) defLen
      let id ← definitionId bytes
      let i := i + (2 + defLen)
      let rest ← scanEntries raw fuel i
      return ⟨UInt32.ofNat offset, name, id⟩ :: rest
    else some []

/-- `records.sort_by(|a, b| a.1.cmp(b.1))`. -/
def sortByName (records : List Scanned) : List Scanned :=
  records.mergeSort fun a b => decide (a.name ≤ b.name)

/-- `records.windows(2).all(|w| w[0].1 != w[1].1)`. -/
def noDuplicates (records : List Scanned) : Bool :=
  (records.zip records.tail).all fun (a, b) => a.name ≠ b.name

/-- The id of the record with the ordinal `o`. -/
def idAt (records : List Scanned) (o : ℕ) : Int32 :=
  match records[o]? with
  | some r => r.id
  | none => 0

/-- The order of `by_id.sort_by_key(|&o| (records[o as usize].2, o))`. -/
def idLe (records : List Scanned) (a b : ℕ) : Bool :=
  decide (idAt records a < idAt records b ∨ idAt records a = idAt records b ∧ a ≤ b)

/-- The table `by_id`. -/
def idOrder (records : List Scanned) : List ℕ :=
  (List.range (UInt32.ofNat records.length).toNat).mergeSort (idLe records)

/-- `while hash[slot] != u32::MAX`: the first free slot from `slot` on.  There are `slots` slots, so
after as many steps it is back where it was and will not end. -/
def freeSlot (hash : List UInt32) (slots : ℕ) : ℕ → ℕ → Option ℕ
  | 0, _ => none
  | fuel + 1, slot => do
    if (← hash[slot]?) ≠ 0xffffffff then freeSlot hash slots fuel ((slot + 1) &&& (slots - 1))
    else return slot

/-- Put one ordinal into the hash table. -/
def insertSlot (slots : ℕ) (hash : List UInt32) (entry : Scanned × ℕ) : Option (List UInt32) := do
  let slot ← freeSlot hash slots slots (nameHash entry.1.name &&& (slots - 1))
  return hash.set slot (UInt32.ofNat entry.2)

/-- The table `hash`. -/
def hashTable (records : List Scanned) : Option (List UInt32) :=
  let slots := hashSlots records.length
  records.zipIdx.foldlM (insertSlot slots) (List.replicate slots 0xffffffff)

/-- `write_propmap_bin`. -/
def writePropmapBin (raw : List UInt8) : Option (List UInt8) := do
  let scanned ← scanEntries raw (raw.length + 1) 0
  let records := sortByName scanned
  guard (noDuplicates records)
  let byId := idOrder records
  let hash ← hashTable records
  return propMapMagic ++ (toBe32 (UInt32.ofNat records.length) ++
    (toBe32 (UInt32.ofNat raw.length) ++ (raw ++ (records.flatMap (toBe32 ·.offset) ++
      (byId.flatMap (toBe32 ∘ UInt32.ofNat) ++ hash.flatMap toBe32)))))

end Wingschema

end LibWing
