import LibWing.Node.Recode
import LibWing.PropMap.Writer

/-!
# The layout of the property map

What the generator writes is where the index reads it.

* `Record` : a record of the sweep, with what the generator relies on;
* `EntryAt` : the fields of a record at an offset;
* `scanEntries_located` : the generator finds the records it was given, at their offsets;
* `be32_table` : reading a table back.
-/

namespace LibWing

open BigEndian

/-! ### Reading back -/

theorem be16_at (pre post : List UInt8) (x : UInt16) :
    be16 (pre ++ (toBe16 x ++ post)) pre.length = some x.toNat := by
  have h : fromBe16 (x >>> 8).toUInt8 x.toUInt8 = x := fromBe16_toBe16 x
  simp [be16, toBe16, h]

theorem be32_at (pre post : List UInt8) (x : UInt32) :
    be32 (pre ++ (toBe32 x ++ post)) pre.length = some x.toNat := by
  have h := fromBe32_toBe32 x
  simp [be32, toBe32, h]

theorem slice_at (pre mid post : List UInt8) :
    slice (pre ++ (mid ++ post)) pre.length mid.length = some mid := by
  simp [slice]

/-- Reading a table of words back. -/
theorem be32_table (xs : List UInt32) {k : ℕ} {x : UInt32} (h : xs[k]? = some x) :
    be32 (xs.flatMap toBe32) (k * 4) = some x.toNat := by
  induction xs generalizing k with
  | nil => cases h
  | cons y xs ih =>
    cases k with
    | zero =>
      rw [List.getElem?_cons_zero] at h
      cases h
      exact be32_at [] _ _
    | succ k =>
      rw [List.getElem?_cons_succ] at h
      have hk := ih h
      rw [List.flatMap_cons, show (k + 1) * 4 = (toBe32 y).length + k * 4 by
        rw [length_toBe32]; omega]
      simpa only [be32, Nat.add_assoc, List.getElem?_append_right (Nat.le_add_right _ _),
        Nat.add_sub_cancel_left] using hk

theorem length_flatMap_toBe32 (xs : List UInt32) : (xs.flatMap toBe32).length = xs.length * 4 := by
  induction xs with
  | nil => rfl
  | cons x xs ih =>
    rw [List.flatMap_cons, List.length_append, ih, length_toBe32, List.length_cons]
    omega

/-! ### Records -/

/-- The id that the index reads without parsing is the id of the definition. -/
theorem definitionId_of_readDef {raw bytes rest : List UInt8} {d : WingNodeDef}
    (hread : Cursor.readDef raw bytes = .ok (d, rest)) : definitionId bytes = some d.id := by
  obtain ⟨parentId, s₁, hparent, h⟩ := Cursor.bind_eq_ok.1 hread
  obtain ⟨id, s₂, hid, h⟩ := Cursor.bind_eq_ok.1 h
  obtain ⟨index, s₃, -, h⟩ := Cursor.bind_eq_ok.1 h
  obtain ⟨name, s₄, -, h⟩ := Cursor.bind_eq_ok.1 h
  obtain ⟨longName, s₅, -, h⟩ := Cursor.bind_eq_ok.1 h
  obtain ⟨flags, s₆, -, h⟩ := Cursor.bind_eq_ok.1 h
  obtain ⟨-, hbase, -⟩ := WingNodeDef.readFields_writable (rfl : WingNodeDef.base _ raw = _) h
  have hsame : d.id = id := congrArg WingNodeDef.id hbase
  match bytes, hparent with
  | a :: b :: c :: e :: rest₁, hparent =>
    cases hparent
    match s₁, hid with
    | a' :: b' :: c' :: e' :: rest₂, hid =>
      cases hid
      rw [hsame]
      rfl

theorem definitionId_eq {bytes : List UInt8} {d : WingNodeDef}
    (h : WingNodeDef.fromBytesWithoutRaw bytes = .ok d) : definitionId bytes = some d.id := by
  obtain ⟨⟨_, rest⟩, hread, h⟩ := Except.bind_eq_ok.1 h
  cases h
  exact definitionId_of_readDef hread

/-- A record of the sweep: a name and a definition that parses, neither of them too long. -/
structure Record where
  /-- The byte in front of the name. -/
  flag : UInt8
  /-- The path of the node. -/
  name : String
  /-- Its definition, as it came. -/
  bytes : List UInt8
  /-- Its definition, as it is read. -/
  definition : WingNodeDef
  /-- That is what the bytes are read as. -/
  parses : WingNodeDef.fromBytesWithoutRaw bytes = .ok definition
  /-- Its length has 16 bits. -/
  name_le : (utf8 name).length ≤ 65535
  /-- Their length has 16 bits. -/
  bytes_le : bytes.length ≤ 65535

namespace Record

/-- The bytes of the record. -/
def entry (r : Record) : List UInt8 := pushEntry r.flag r.name r.bytes

/-- The records of a sweep, one after the other. -/
def rawOf (records : List Record) : List UInt8 := records.flatMap entry

theorem length_entry (r : Record) :
    r.entry.length = (utf8 r.name).length + (5 + r.bytes.length) := by
  simp only [entry, pushEntry, List.length_append, List.length_singleton, length_toBe16]
  omega

/-- No record is empty. -/
theorem length_le_rawOf (records : List Record) : records.length ≤ (rawOf records).length := by
  induction records with
  | nil => exact Nat.zero_le _
  | cons r records ih =>
    have hentry := r.length_entry
    rw [rawOf, List.flatMap_cons, List.length_append, List.length_cons]
    change records.length + 1 ≤ r.entry.length + (rawOf records).length
    omega

end Record

/-- The fields of the record `r` at offset `i`. -/
structure EntryAt (bytes : List UInt8) (i : ℕ) (r : Record) : Prop where
  /-- The length of the name. -/
  nameLen : be16 bytes (i + 1) = some (utf8 r.name).length
  /-- The name. -/
  name : slice bytes (i + 3) (utf8 r.name).length = some (utf8 r.name)
  /-- The length of the definition. -/
  defLen : be16 bytes (i + (3 + (utf8 r.name).length)) = some r.bytes.length
  /-- The bytes of the definition. -/
  definition : slice bytes (i + (3 + (utf8 r.name).length) + 2) r.bytes.length = some r.bytes

theorem toNat_ofNat16 {n : ℕ} (h : n ≤ 65535) : (UInt16.ofNat n).toNat = n := by
  rw [UInt16.toNat_ofNat', Nat.mod_eq_of_lt (by omega)]

/-- Where the fields of a record are, whatever the length of its definition: the length that was
written is cut to its field. -/
theorem pushEntry_at (pre post : List UInt8) (flag : UInt8) {name : String} (bytes : List UInt8)
    (hname : (utf8 name).length ≤ 65535) {raw : List UInt8}
    (hraw : raw = pre ++ (pushEntry flag name bytes ++ post)) :
    be16 raw (pre.length + 1) = some (utf8 name).length ∧
      slice raw (pre.length + 3) (utf8 name).length = some (utf8 name) ∧
      be16 raw (pre.length + (3 + (utf8 name).length)) = some (bytes.length % 65536) ∧
      slice raw (pre.length + (3 + (utf8 name).length) + 2) (bytes.length % 65536) =
        some (bytes.take (bytes.length % 65536)) := by
  -- The same bytes, cut before each of the fields.
  have h₁ : raw = (pre ++ [flag]) ++ (toBe16 (.ofNat (utf8 name).length) ++
      (utf8 name ++ (toBe16 (.ofNat bytes.length) ++ (bytes ++ post)))) := by
    simp only [hraw, pushEntry, List.append_assoc]
  have h₂ : raw = (pre ++ [flag] ++ toBe16 (.ofNat (utf8 name).length)) ++
      (utf8 name ++ (toBe16 (.ofNat bytes.length) ++ (bytes ++ post))) := by
    rw [h₁, List.append_assoc _ (toBe16 _)]
  have h₃ : raw = (pre ++ [flag] ++ toBe16 (.ofNat (utf8 name).length) ++ utf8 name) ++
      (toBe16 (.ofNat bytes.length) ++ (bytes ++ post)) := by
    rw [h₂, List.append_assoc _ (utf8 name)]
  have h₄ : raw = (pre ++ [flag] ++ toBe16 (.ofNat (utf8 name).length) ++ utf8 name ++
      toBe16 (.ofNat bytes.length)) ++ (bytes.take (bytes.length % 65536) ++
        (bytes.drop (bytes.length % 65536) ++ post)) := by
    rw [h₃, List.append_assoc _ (toBe16 (.ofNat bytes.length)), ← List.append_assoc (bytes.take _),
      List.take_append_drop]
  refine ⟨?_, ?_, ?_, ?_⟩
  · have h := be16_at (pre ++ [flag]) (utf8 name ++ (toBe16 (.ofNat bytes.length) ++
      (bytes ++ post))) (.ofNat (utf8 name).length)
    rw [← h₁, toNat_ofNat16 hname, List.length_append] at h
    exact h
  · have h := slice_at (pre ++ [flag] ++ toBe16 (.ofNat (utf8 name).length)) (utf8 name)
      (toBe16 (.ofNat bytes.length) ++ (bytes ++ post))
    rw [← h₂, List.length_append, List.length_append] at h
    exact h
  · have h := be16_at (pre ++ [flag] ++ toBe16 (.ofNat (utf8 name).length) ++ utf8 name)
      (bytes ++ post) (.ofNat bytes.length)
    rw [← h₃, UInt16.toNat_ofNat', List.length_append, List.length_append, List.length_append] at h
    rw [← Nat.add_assoc]
    exact h
  · have h := slice_at (pre ++ [flag] ++ toBe16 (.ofNat (utf8 name).length) ++ utf8 name ++
      toBe16 (.ofNat bytes.length)) (bytes.take (bytes.length % 65536))
      (bytes.drop (bytes.length % 65536) ++ post)
    rw [← h₄, List.length_append, List.length_append, List.length_append, List.length_append,
      List.length_take, Nat.min_eq_left (Nat.mod_le _ _)] at h
    rw [← Nat.add_assoc]
    exact h

theorem entryAt (pre post : List UInt8) (r : Record) :
    EntryAt (pre ++ (r.entry ++ post)) pre.length r := by
  obtain ⟨hnameLen, hname, hdefLen, hdef⟩ := pushEntry_at pre post r.flag r.bytes r.name_le rfl
  rw [Nat.mod_eq_of_lt (Nat.lt_succ_of_le r.bytes_le)] at hdefLen hdef
  rw [List.take_length] at hdef
  exact ⟨hnameLen, hname, hdefLen, hdef⟩

/-! ### The records at their offsets -/

/-- The records with their offsets, if the first is at `offset`. -/
def located : ℕ → List Record → List (ℕ × Record)
  | _, [] => []
  | offset, r :: records => (offset, r) :: located (offset + r.entry.length) records

theorem map_located (offset : ℕ) (records : List Record) :
    (located offset records).map (·.2) = records := by
  induction records generalizing offset with
  | nil => rfl
  | cons r records ih => rw [located, List.map_cons, ih]

/-- A record is at its offset. -/
theorem mem_located {pre : List UInt8} {records : List Record} {p : ℕ × Record}
    (h : p ∈ located pre.length records) :
    ∃ before after, pre ++ Record.rawOf records = before ++ (p.2.entry ++ after) ∧
      before.length = p.1 := by
  induction records generalizing pre with
  | nil => cases h
  | cons r records ih =>
    have hraw : pre ++ Record.rawOf (r :: records) = (pre ++ r.entry) ++ Record.rawOf records := by
      rw [Record.rawOf, List.flatMap_cons, List.append_assoc]
      rfl
    rw [located, ← List.length_append] at h
    rcases List.mem_cons.mp h with rfl | h
    · exact ⟨pre, Record.rawOf records, by rw [hraw, List.append_assoc], rfl⟩
    · obtain ⟨before, after, heq, hlen⟩ := ih h
      exact ⟨before, after, hraw.trans heq, hlen⟩

namespace Wingschema

/-- What the generator keeps of a record. -/
def scannedOf (p : ℕ × Record) : Scanned :=
  ⟨UInt32.ofNat p.1, utf8 p.2.name, p.2.definition.id⟩

/-- **The generator finds the records**, each at its offset. -/
theorem scanEntries_located (pre : List UInt8) (records : List Record) {fuel : ℕ}
    (hfuel : records.length < fuel) :
    scanEntries (pre ++ Record.rawOf records) fuel pre.length =
      some ((located pre.length records).map scannedOf) := by
  induction records generalizing pre fuel with
  | nil =>
    obtain ⟨fuel, rfl⟩ := Nat.exists_eq_succ_of_ne_zero (Nat.ne_of_gt hfuel)
    have hend : ¬ pre.length < (pre ++ Record.rawOf []).length := by
      rw [Record.rawOf, List.flatMap_nil, List.append_nil]
      exact Nat.lt_irrefl _
    rw [scanEntries, if_neg hend]
    rfl
  | cons r records ih =>
    obtain ⟨fuel, rfl⟩ := Nat.exists_eq_succ_of_ne_zero (Nat.ne_of_gt (Nat.zero_lt_of_lt hfuel))
    have hraw : pre ++ Record.rawOf (r :: records) = (pre ++ r.entry) ++ Record.rawOf records := by
      rw [Record.rawOf, List.flatMap_cons, List.append_assoc]
      rfl
    have hentry := entryAt pre (Record.rawOf records) r
    rw [← List.append_assoc, ← hraw] at hentry
    have hmore : pre.length < (pre ++ Record.rawOf (r :: records)).length := by
      rw [hraw, List.length_append, List.length_append, Record.length_entry]
      omega
    have hnext : pre.length + (3 + (utf8 r.name).length) + (2 + r.bytes.length) =
        (pre ++ r.entry).length := by
      rw [List.length_append, Record.length_entry]
      omega
    have hrest := ih (pre ++ r.entry) (Nat.lt_of_succ_lt_succ hfuel)
    rw [← hraw, ← hnext] at hrest
    rw [scanEntries, if_pos hmore]
    simp only [hentry.nameLen, hentry.name, hentry.defLen, hentry.definition,
      definitionId_eq r.parses, hrest, Option.bind_eq_bind, Option.bind_some]
    rw [located, List.map_cons, ← List.length_append, ← hnext]
    rfl

/-- The order of the names. -/
def nameLe (a b : ℕ × Record) : Bool := decide (utf8 a.2.name ≤ utf8 b.2.name)

theorem sortByName_located (l : List (ℕ × Record)) :
    sortByName (l.map scannedOf) = (l.mergeSort nameLe).map scannedOf := by
  have h := List.map_mergeSort (r := nameLe) (s := fun a b : Scanned => decide (a.name ≤ b.name))
    (f := scannedOf) (l := l) fun _ _ _ _ => rfl
  exact h.symm

end Wingschema

end LibWing
