import LibWing.Node.Codec

/-!
# Reading a definition by index

The reader of the source does not consume its bytes: it keeps an index into them, slices, indexes
the slices, and subtracts the index from the length.  Any of these could panic.  Here the reader is
written with the index and with the panics, and it is shown to do what the cursor does.

* `Indexed.fromBytes` : the reader, with its panics;
* `Indexed.Refines` : from any index inside the bytes, a reader does what a cursor does on the bytes
  from there, and stays inside;
* `Indexed.fromBytes_eq` : so it never panics.
-/

namespace LibWing

namespace Indexed

open BigEndian

/-- How reading can fail. -/
inductive Fault where
  /-- The panic of an access outside of a slice. -/
  | outOfBounds
  /-- The panic of a subtraction below zero. -/
  | underflow
  | error (e : Error)
  deriving DecidableEq, Repr

/-- A reader of a body: the state is the index. -/
abbrev Reader (α : Type) := StateT ℕ (Except Fault) α

/-- `bytes[k]`. -/
def byteAt (bytes : List UInt8) (k : ℕ) : Reader UInt8 := fun i =>
  match bytes[k]? with
  | some b => .ok (b, i)
  | none => .error .outOfBounds

/-- `&raw[start..stop]`. -/
def slice (raw : List UInt8) (start stop : ℕ) : Except Fault (List UInt8) :=
  if start ≤ stop ∧ stop ≤ raw.length then .ok ((raw.take stop).drop start)
  else .error .outOfBounds

variable (raw : List UInt8)

/-- `raw.len() - i`. -/
def remaining : Reader ℕ := fun i =>
  if i ≤ raw.length then .ok (raw.length - i, i) else .error .underflow

/-- `take`: its own subtraction saturates. -/
def take (len : ℕ) : Reader (List UInt8) := fun i =>
  if raw.length - i < len then .error (.error .invalidData)
  else do
    let bytes ← slice raw i (i + len)
    return (bytes, i + len)

/-- `read_u8`. -/
def readU8 : Reader UInt8 := do
  let bytes ← take raw 1
  byteAt bytes 0

/-- `read_u16`. -/
def readU16 : Reader UInt16 := do
  let bytes ← take raw 2
  return fromBe16 (← byteAt bytes 0) (← byteAt bytes 1)

/-- Four bytes, as `read_i32` and `read_f32` take them. -/
def readWord {α : Type} (word : UInt8 → UInt8 → UInt8 → UInt8 → α) : Reader α := do
  let bytes ← take raw 4
  return word (← byteAt bytes 0) (← byteAt bytes 1) (← byteAt bytes 2) (← byteAt bytes 3)

/-- `read_i32`. -/
def readI32 : Reader Int32 := readWord raw i32OfBytes

/-- `read_f32`. -/
def readF32 : Reader F32 := readWord raw f32OfBytes

/-- `read_string`. -/
def readString (len : ℕ) : Reader String := do
  let bytes ← take raw len
  match fromUtf8 bytes with
  | some value => return value
  | none => throw (.error .invalidData)

/-- A string with its length in front. -/
def readShortString : Reader String := do
  let len ← readU8 raw
  readString raw len.toNat

/-- The loop that reads the items of an enumeration. -/
def readMany {α : Type} (item : Reader α) : ℕ → Reader (List α)
  | 0 => return []
  | n + 1 => do
    let i ← item
    let items ← readMany item n
    return i :: items

/-- One item of a string enumeration. -/
def readStringItem : Reader StringEnumItem := do
  let item ← readShortString raw
  let longItem ← readShortString raw
  return ⟨item, longItem⟩

/-- One item of a float enumeration. -/
def readFloatItem : Reader FloatEnumItem := do
  let item ← readF32 raw
  let longItem ← readShortString raw
  return ⟨item, longItem⟩

/-- The fields `from_bytes_inner` reads by the type, into a definition that has none of them. -/
def readFields (d : WingNodeDef) : Reader WingNodeDef :=
  match d.nodeType with
  | .node | .unknown _ => return d
  | .string => do
    let len ← readU16 raw
    return { d with maxStringLen := some len }
  | .linearFloat | .logarithmicFloat => do
    let min ← readF32 raw
    let max ← readF32 raw
    let steps ← readI32 raw
    return { d with minFloat := some min, maxFloat := some max, steps := some steps }
  | .faderLevel => do
    if (← remaining raw) ≥ 12 then
      let min ← readF32 raw
      let max ← readF32 raw
      let steps ← readI32 raw
      return { d with minFloat := some min, maxFloat := some max, steps := some steps }
    else return d
  | .integer => do
    let min ← readI32 raw
    let max ← readI32 raw
    return { d with minInt := some min, maxInt := some max }
  | .stringEnum => do
    let num ← readU16 raw
    let items ← readMany (readStringItem raw) num.toNat
    return { d with stringEnum := some items }
  | .floatEnum => do
    let num ← readU16 raw
    let items ← readMany (readFloatItem raw) num.toNat
    return { d with floatEnum := some items }

/-- `from_bytes_inner`. -/
def readDef : Reader WingNodeDef := do
  let parentId ← readI32 raw
  let id ← readI32 raw
  let index ← readU16 raw
  let name ← readShortString raw
  let longName ← readShortString raw
  let flags ← readU16 raw
  readFields raw
    { id, parentId, index, name, longName
      nodeType := .ofNibble ((flags >>> 4) &&& 0x0f).toUInt8
      unit := .ofNibble (flags &&& 0x0f).toUInt8
      readOnly := ((flags >>> 9) &&& 0x01) ≠ 0
      minFloat := none, maxFloat := none, steps := none, minInt := none, maxInt := none
      maxStringLen := none, stringEnum := none, floatEnum := none, raw }

/-- `WingNodeDef::from_bytes`, from the first index on. -/
def fromBytes : Except Fault WingNodeDef := do
  let (d, _) ← readDef raw 0
  return d

/-! ### Readers by index and cursors -/

variable {raw : List UInt8} {α β : Type}

/-- From an index inside the bytes, the reader does what the cursor does on the bytes from there,
and it stops inside the bytes.  A reader that panics refines no cursor. -/
def Refines (raw : List UInt8) (x : Reader α) (y : Cursor α) : Prop :=
  ∀ i ≤ raw.length, match y (raw.drop i) with
    | .ok (a, rest) => ∃ j ≤ raw.length, raw.drop j = rest ∧ x i = .ok (a, j)
    | .error e => x i = .error (.error e)

theorem Refines.pure (a : α) : Refines raw (Pure.pure a) (Pure.pure a) := by
  intro i hi
  exact ⟨i, hi, rfl, rfl⟩

theorem Refines.throw (e : Error) :
    Refines raw (MonadExcept.throw (Fault.error e) : Reader α) (MonadExcept.throw e) := by
  intro i _
  rfl

theorem Refines.bind {x : Reader α} {y : Cursor α} {f : α → Reader β} {g : α → Cursor β}
    (hx : Refines raw x y) (hf : ∀ a, Refines raw (f a) (g a)) :
    Refines raw (x >>= f) (y >>= g) := by
  intro i hi
  have hstep := hx i hi
  change match (y (raw.drop i) >>= fun p => g p.1 p.2 : Except Error (β × List UInt8)) with
    | .ok (a, rest) => ∃ j ≤ raw.length, raw.drop j = rest ∧
        (x i >>= fun p => f p.1 p.2 : Except Fault (β × ℕ)) = .ok (a, j)
    | .error e => (x i >>= fun p => f p.1 p.2 : Except Fault (β × ℕ)) = .error (.error e)
  cases hy : y (raw.drop i) with
  | error e =>
    rw [hy] at hstep
    rw [show x i = .error (.error e) from hstep]
    rfl
  | ok p =>
    rw [hy] at hstep
    obtain ⟨j, hj, hrest, hxi⟩ := hstep
    have hnext := hf p.1 j hj
    rw [hrest] at hnext
    rw [hxi]
    exact hnext

theorem take_eq {i : ℕ} (hi : i ≤ raw.length) (len : ℕ) :
    take raw len i = if (raw.drop i).length < len then .error (.error .invalidData)
      else .ok ((raw.drop i).take len, i + len) := by
  rw [take, List.length_drop]
  split_ifs with hshort
  · rfl
  · rw [slice, if_pos ⟨Nat.le_add_right _ _, by omega⟩, List.drop_take, Nat.add_sub_cancel_left]
    rfl

theorem Refines.take (len : ℕ) : Refines raw (Indexed.take raw len) (Cursor.take len) := by
  intro i hi
  rw [take_eq hi, Cursor.take]
  split_ifs with hshort
  · rfl
  · rw [List.length_drop] at hshort
    refine ⟨i + len, by omega, ?_, rfl⟩
    rw [List.drop_drop]

theorem le_of_drop {i n : ℕ} (bytes : List UInt8) {rest : List UInt8} (hi : i ≤ raw.length)
    (h : raw.drop i = bytes ++ rest) (hn : bytes.length = n) :
    i + n ≤ raw.length ∧ raw.drop (i + n) = rest := by
  have hlen := congrArg List.length h
  rw [List.length_drop, List.length_append] at hlen
  refine ⟨by omega, ?_⟩
  rw [← List.drop_drop, h, ← hn, List.drop_left]

theorem Refines.readU8 : Refines raw (Indexed.readU8 raw) Cursor.readU8 := by
  intro i hi
  have htake := take_eq hi 1
  rcases hdrop : raw.drop i with _ | ⟨a, rest⟩ <;> rw [hdrop] at htake
  · change (Indexed.take raw 1 i >>= _) = _
    rw [htake]
    rfl
  · obtain ⟨hle, hrest⟩ := le_of_drop [a] hi hdrop rfl
    refine ⟨i + 1, hle, hrest, ?_⟩
    change (Indexed.take raw 1 i >>= _) = _
    rw [htake, if_neg (by simp)]
    rfl

theorem Refines.readU16 : Refines raw (Indexed.readU16 raw) Cursor.readU16 := by
  intro i hi
  have htake := take_eq hi 2
  rcases hdrop : raw.drop i with _ | ⟨a, _ | ⟨b, rest⟩⟩ <;> rw [hdrop] at htake
  case cons.cons =>
    obtain ⟨hle, hrest⟩ := le_of_drop [a, b] hi hdrop rfl
    refine ⟨i + 2, hle, hrest, ?_⟩
    change (Indexed.take raw 2 i >>= _) = _
    rw [htake, if_neg (by simp)]
    rfl
  all_goals
    change (Indexed.take raw 2 i >>= _) = _
    rw [htake]
    rfl

theorem Refines.readWord (word : UInt8 → UInt8 → UInt8 → UInt8 → α) :
    Refines raw (Indexed.readWord raw word) (Cursor.readWord word) := by
  intro i hi
  have htake := take_eq hi 4
  rcases hdrop : raw.drop i with _ | ⟨a, _ | ⟨b, _ | ⟨c, _ | ⟨d, rest⟩⟩⟩⟩ <;> rw [hdrop] at htake
  case cons.cons.cons.cons =>
    obtain ⟨hle, hrest⟩ := le_of_drop [a, b, c, d] hi hdrop rfl
    refine ⟨i + 4, hle, hrest, ?_⟩
    change (Indexed.take raw 4 i >>= _) = _
    rw [htake, if_neg (by simp)]
    rfl
  all_goals
    change (Indexed.take raw 4 i >>= _) = _
    rw [htake]
    rfl

theorem Refines.readI32 : Refines raw (Indexed.readI32 raw) Cursor.readI32 := by
  rw [Cursor.readI32_eq]
  exact Refines.readWord _

theorem Refines.readF32 : Refines raw (Indexed.readF32 raw) Cursor.readF32 := by
  rw [Cursor.readF32_eq]
  exact Refines.readWord _

theorem Refines.readShortString :
    Refines raw (Indexed.readShortString raw) Cursor.readShortString := by
  refine Refines.readU8.bind fun len => (Refines.take _).bind fun bytes => ?_
  cases fromUtf8 bytes with
  | none => exact Refines.throw _
  | some value => exact Refines.pure _

theorem Refines.readMany {x : Reader α} {y : Cursor α} (hitem : Refines raw x y) (n : ℕ) :
    Refines raw (Indexed.readMany x n) (Cursor.readMany y n) := by
  induction n with
  | zero => exact Refines.pure _
  | succ n ih => exact hitem.bind fun _ => ih.bind fun _ => Refines.pure _

theorem Refines.readStringItem :
    Refines raw (Indexed.readStringItem raw) Cursor.readStringItem :=
  Refines.readShortString.bind fun _ => Refines.readShortString.bind fun _ => Refines.pure _

theorem Refines.readFloatItem : Refines raw (Indexed.readFloatItem raw) Cursor.readFloatItem :=
  Refines.readF32.bind fun _ => Refines.readShortString.bind fun _ => Refines.pure _

/-- What is left of the bytes has the length that is left. -/
theorem Refines.remaining {f : ℕ → Reader α} {g : ℕ → Cursor α}
    (hf : ∀ n, Refines raw (f n) (g n)) :
    Refines raw (Indexed.remaining raw >>= f) (get >>= fun rest => g rest.length) := by
  intro i hi
  have hnext := hf (raw.length - i) i hi
  have hleft : Indexed.remaining raw i = .ok (raw.length - i, i) := if_pos hi
  rw [← List.length_drop] at hnext hleft
  change match g (raw.drop i).length (raw.drop i) with
    | .ok (a, rest) => ∃ j ≤ raw.length, raw.drop j = rest ∧
        (Indexed.remaining raw i >>= fun p => f p.1 p.2 : Except Fault (α × ℕ)) = .ok (a, j)
    | .error e =>
      (Indexed.remaining raw i >>= fun p => f p.1 p.2 : Except Fault (α × ℕ)) = .error (.error e)
  rw [hleft]
  exact hnext

theorem Refines.readRange {f : F32 → F32 → Int32 → Reader α} {g : F32 → F32 → Int32 → Cursor α}
    (hf : ∀ min max steps, Refines raw (f min max steps) (g min max steps)) :
    Refines raw
      (do
        let min ← Indexed.readF32 raw
        let max ← Indexed.readF32 raw
        let steps ← Indexed.readI32 raw
        f min max steps)
      (do
        let min ← Cursor.readF32
        let max ← Cursor.readF32
        let steps ← Cursor.readI32
        g min max steps) :=
  Refines.readF32.bind fun min => Refines.readF32.bind fun max =>
    Refines.readI32.bind fun steps => hf min max steps

theorem Refines.readFields (d : WingNodeDef) :
    Refines raw (Indexed.readFields raw d) (Cursor.readFields d) := by
  unfold Indexed.readFields Cursor.readFields
  cases d.nodeType with
  | node => exact Refines.pure _
  | unknown nibble => exact Refines.pure _
  | string => exact Refines.readU16.bind fun _ => Refines.pure _
  | linearFloat | logarithmicFloat => exact Refines.readRange fun _ _ _ => Refines.pure _
  | faderLevel =>
    -- The subtraction is the only one that could go below zero.
    refine Refines.remaining (g := fun n => if n ≥ 12 then _ else _) fun n => ?_
    by_cases hrange : n ≥ 12
    · rw [if_pos hrange, if_pos hrange]
      exact Refines.readRange fun _ _ _ => Refines.pure _
    · rw [if_neg hrange, if_neg hrange]
      exact Refines.pure _
  | integer => exact Refines.readI32.bind fun _ => Refines.readI32.bind fun _ => Refines.pure _
  | stringEnum =>
    exact Refines.readU16.bind fun num =>
      (Refines.readMany Refines.readStringItem _).bind fun _ => Refines.pure _
  | floatEnum =>
    exact Refines.readU16.bind fun num =>
      (Refines.readMany Refines.readFloatItem _).bind fun _ => Refines.pure _

theorem Refines.readDef : Refines raw (Indexed.readDef raw) (Cursor.readDef raw) :=
  Refines.readI32.bind fun _ => Refines.readI32.bind fun _ => Refines.readU16.bind fun _ =>
    Refines.readShortString.bind fun _ => Refines.readShortString.bind fun _ =>
      Refines.readU16.bind fun _ => Refines.readFields _

/-- The reader by index gives what the cursor gives, for any bytes: it never panics. -/
theorem fromBytes_eq (raw : List UInt8) :
    fromBytes raw = (WingNodeDef.fromBytes raw).mapError Fault.error := by
  have h := @Refines.readDef raw 0 (Nat.zero_le _)
  rw [List.drop_zero] at h
  unfold fromBytes WingNodeDef.fromBytes
  cases hread : Cursor.readDef raw raw with
  | error e =>
    rw [hread] at h
    rw [show readDef raw 0 = .error (.error e) from h]
    rfl
  | ok p =>
    rw [hread] at h
    obtain ⟨j, -, -, hj⟩ := h
    rw [hj]
    rfl

/-- An error that is passed on is no panic. -/
theorem mapError_error_ne {α : Type} (r : Result α) :
    r.mapError Fault.error ≠ .error .outOfBounds ∧ r.mapError Fault.error ≠ .error .underflow := by
  cases r with
  | ok a => exact ⟨by rintro ⟨⟩, by rintro ⟨⟩⟩
  | error e => exact ⟨by rintro ⟨⟩, by rintro ⟨⟩⟩

end Indexed

end LibWing
