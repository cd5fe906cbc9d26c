import LibWing.Node.Def
import Mathlib.Data.Fin.Basic

/-!
# Definitions survive the wire

Reading the body of a definition gives the definition back, in its canonical form: the fields its
type does not use are dropped, and `raw` is the body.

* `WingNodeDef.canonical` : that form;
* `toWireBytes_eq` : a body is its header, up to the end of the flags, and the fields of its type;
* `fromBytes_toWireBytes` : the round trip, for definitions whose unknown nibbles are nibbles the
  reader does not know.
-/

namespace LibWing

open BigEndian

/-! ### Readers -/

namespace Cursor

variable {α β : Type}

/-- A reader that succeeds hands its value and what is left to the next one. -/
theorem bind_ok {x : Cursor α} {f : α → Cursor β} {s s' : List UInt8} {a : α}
    (h : x s = .ok (a, s')) : (x >>= f) s = f a s' := by
  change (x s >>= fun p => f p.1 p.2) = _
  rw [h]
  rfl

theorem pure_eq (a : α) (s : List UInt8) : (pure a : Cursor α) s = .ok (a, s) := rfl

/-- A word of four bytes. -/
def readWord (word : UInt8 → UInt8 → UInt8 → UInt8 → α) : Cursor α := fun
  | a :: b :: c :: d :: rest => .ok (word a b c d, rest)
  | _ => .error .invalidData

theorem readI32_eq : readI32 = readWord i32OfBytes := rfl

theorem readF32_eq : readF32 = readWord f32OfBytes := rfl

theorem readI32_append (x : Int32) (rest : List UInt8) :
    readI32 (i32Bytes x ++ rest) = .ok (x, rest) := by
  simp [readI32, i32Bytes, toBe32, i32OfBytes]

theorem readF32_append (x : F32) (rest : List UInt8) :
    readF32 (f32Bytes x ++ rest) = .ok (x, rest) := by
  simp [readF32, f32Bytes, toBe32, f32OfBytes]

theorem readU16_append (x : UInt16) (rest : List UInt8) :
    readU16 (toBe16 x ++ rest) = .ok (x, rest) := by
  simp [readU16, toBe16]

theorem readShortString_append {value : String} {bytes : List UInt8}
    (h : shortString value = .ok bytes) (rest : List UInt8) :
    readShortString (bytes ++ rest) = .ok (value, rest) := by
  unfold shortString at h
  split_ifs at h with hle
  cases h
  have hlen : (UInt8.ofNat (utf8 value).length).toNat = (utf8 value).length := by
    rw [UInt8.toNat_ofNat']
    omega
  have hu8 : readU8 (UInt8.ofNat (utf8 value).length :: utf8 value ++ rest) =
      .ok (UInt8.ofNat (utf8 value).length, utf8 value ++ rest) := rfl
  have htake : take (utf8 value).length (utf8 value ++ rest) = .ok (utf8 value, rest) := by
    unfold take
    rw [if_neg (by simp), List.take_left, List.drop_left]
  rw [readShortString, bind_ok hu8, hlen, readString, bind_ok htake]
  simp only [fromUtf8_utf8]
  rfl

theorem readMany_append {write : α → Result (List UInt8)} {read : Cursor α}
    (hitem : ∀ i bytes rest, write i = .ok bytes → read (bytes ++ rest) = .ok (i, rest))
    {items : List α} {bytes : List UInt8} (h : writeMany write items = .ok bytes)
    (rest : List UInt8) : readMany read items.length (bytes ++ rest) = .ok (items, rest) := by
  induction items generalizing bytes with
  | nil =>
    cases h
    rfl
  | cons i items ih =>
    obtain ⟨first, hi, h⟩ := Except.bind_eq_ok.1 h
    obtain ⟨more, hm, h⟩ := Except.bind_eq_ok.1 h
    cases Except.pure_eq_ok.1 h
    rw [List.append_assoc, List.length_cons, readMany, bind_ok (hitem _ _ _ hi), bind_ok (ih hm)]
    rfl

theorem readStringItem_append (i : StringEnumItem) (bytes rest : List UInt8)
    (h : stringItem i = .ok bytes) : readStringItem (bytes ++ rest) = .ok (i, rest) := by
  obtain ⟨item, hi, h⟩ := Except.bind_eq_ok.1 h
  obtain ⟨longItem, hl, h⟩ := Except.bind_eq_ok.1 h
  cases Except.pure_eq_ok.1 h
  rw [List.append_assoc, readStringItem, bind_ok (readShortString_append hi _),
    bind_ok (readShortString_append hl _)]
  rfl

theorem readFloatItem_append (i : FloatEnumItem) (bytes rest : List UInt8)
    (h : floatItem i = .ok bytes) : readFloatItem (bytes ++ rest) = .ok (i, rest) := by
  obtain ⟨longItem, hl, h⟩ := Except.bind_eq_ok.1 h
  cases Except.pure_eq_ok.1 h
  rw [List.append_assoc, readFloatItem, bind_ok (readF32_append _ _),
    bind_ok (readShortString_append hl _)]
  rfl

theorem readU16_itemCount {n : ℕ} {bytes : List UInt8} (h : itemCount n = .ok bytes)
    (rest : List UInt8) : ∃ count : UInt16, readU16 (bytes ++ rest) = .ok (count, rest) ∧
      count.toNat = n := by
  unfold itemCount at h
  split_ifs at h with hle
  cases h
  refine ⟨UInt16.ofNat n, readU16_append _ _, ?_⟩
  rw [UInt16.toNat_ofNat']
  omega

/-- The fields in front of those that depend on the type. -/
def readHeader (raw : List UInt8) : Cursor WingNodeDef := do
  let parentId ← readI32
  let id ← readI32
  let index ← readU16
  let name ← readShortString
  let longName ← readShortString
  let flags ← readU16
  return {
    id, parentId, index, name, longName
    nodeType := .ofNibble ((flags >>> 4) &&& 0x0f).toUInt8
    unit := .ofNibble (flags &&& 0x0f).toUInt8
    readOnly := ((flags >>> 9) &&& 0x01) ≠ 0
    minFloat := none, maxFloat := none, steps := none, minInt := none, maxInt := none
    maxStringLen := none, stringEnum := none, floatEnum := none, raw }

theorem readDef_eq (raw : List UInt8) : readDef raw = readHeader raw >>= readFields := by
  simp only [readDef, readHeader, bind_assoc, pure_bind]

end Cursor

/-! ### Flags -/

theorem flags_bits : ∀ t u : Fin 16, ∀ readOnly : Bool,
    let flags := ((UInt8.ofNat t).toUInt16 <<< 4) ||| (UInt8.ofNat u).toUInt16
    let flags := if readOnly then flags ||| ((1 : UInt16) <<< 9) else flags
    ((flags >>> 4) &&& 0x0f).toUInt8 = UInt8.ofNat t ∧ (flags &&& 0x0f).toUInt8 = UInt8.ofNat u ∧
      decide (((flags >>> 9) &&& 0x01) ≠ 0) = readOnly := by
  decide +kernel

/-- A nibble the reader has no name for. -/
def UnknownNibble (nibble : UInt8) : Prop := 8 ≤ nibble ∧ nibble ≤ 15

/-- The types the reader tells apart. -/
def NodeType.Readable (t : NodeType) : Prop := ∀ nibble, t = .unknown nibble → UnknownNibble nibble

/-- The units the reader tells apart. -/
def NodeUnit.Readable (u : NodeUnit) : Prop := ∀ nibble, u = .unknown nibble → UnknownNibble nibble

theorem unknownNibble_and : ∀ nibble : UInt8, 8 ≤ nibble → nibble ≤ 15 →
    nibble &&& 0x0f = nibble ∧ nibble.toNat < 16 ∧ NodeType.ofNibble nibble = .unknown nibble ∧
      NodeUnit.ofNibble nibble = .unknown nibble := by
  decide +kernel

theorem NodeType.ofNibble_nibble {t : NodeType} (ht : t.Readable) :
    ofNibble t.nibble = t ∧ t.nibble.toNat < 16 := by
  cases t with
  | unknown nibble =>
    obtain ⟨hlo, hhi⟩ := ht nibble rfl
    obtain ⟨hand, hlt, hof, -⟩ := unknownNibble_and nibble hlo hhi
    simp only [NodeType.nibble, hand, hof, hlt, and_self]
  | _ => exact ⟨rfl, by decide⟩

theorem NodeUnit.ofNibble_nibble {u : NodeUnit} (hu : u.Readable) :
    ofNibble u.nibble = u ∧ u.nibble.toNat < 16 := by
  cases u with
  | unknown nibble =>
    obtain ⟨hlo, hhi⟩ := hu nibble rfl
    obtain ⟨hand, hlt, -, hof⟩ := unknownNibble_and nibble hlo hhi
    simp only [NodeUnit.nibble, hand, hof, hlt, and_self]
  | _ => exact ⟨rfl, by decide⟩

theorem NodeUnit.nibble_lt (u : NodeUnit) : u.nibble.toNat < 16 := by
  cases u with
  | unknown value =>
    rw [nibble, UInt8.toNat_and]
    exact Nat.lt_succ_of_le Nat.and_le_right
  | _ => decide

namespace WingNodeDef

/-- The definitions whose nibbles the reader can tell from the ones it has names for. -/
def Readable (d : WingNodeDef) : Prop := d.nodeType.Readable ∧ d.unit.Readable

/-- The flags keep the type, and the nibble of the unit, whatever it is. -/
theorem flags_type {d : WingNodeDef} (ht : d.nodeType.Readable) :
    NodeType.ofNibble ((d.flags >>> 4) &&& 0x0f).toUInt8 = d.nodeType ∧
      (d.flags &&& 0x0f).toUInt8 = d.unit.nibble ∧
      decide (((d.flags >>> 9) &&& 0x01) ≠ 0) = d.readOnly := by
  obtain ⟨htype, hlt⟩ := NodeType.ofNibble_nibble ht
  have h := flags_bits ⟨d.nodeType.nibble.toNat, hlt⟩ ⟨d.unit.nibble.toNat, d.unit.nibble_lt⟩
    d.readOnly
  simp only [UInt8.ofNat_toNat] at h
  obtain ⟨h₁, h₂, h₃⟩ := h
  exact ⟨by rw [← htype, ← h₁]; rfl, h₂, h₃⟩

/-! ### The round trip -/

/-- A definition without the fields that depend on the type. -/
def base (d : WingNodeDef) (raw : List UInt8) : WingNodeDef :=
  { d with
    minFloat := none, maxFloat := none, steps := none, minInt := none, maxInt := none
    maxStringLen := none, stringEnum := none, floatEnum := none, raw := raw }

/-- The canonical form: only the fields the type uses, and `raw` the encoded body. -/
def canonical (d : WingNodeDef) (raw : List UInt8) : WingNodeDef :=
  match d.nodeType with
  | .node | .unknown _ => d.base raw
  | .string => { d.base raw with maxStringLen := d.maxStringLen }
  | .linearFloat | .logarithmicFloat | .faderLevel =>
    { d.base raw with minFloat := d.minFloat, maxFloat := d.maxFloat, steps := d.steps }
  | .integer => { d.base raw with minInt := d.minInt, maxInt := d.maxInt }
  | .stringEnum => { d.base raw with stringEnum := d.stringEnum }
  | .floatEnum => { d.base raw with floatEnum := d.floatEnum }

variable {d : WingNodeDef}

theorem required_eq_ok {α : Type} {x : Option α} {a : α} (h : required x = .ok a) : x = some a := by
  cases x with
  | none => cases h
  | some b =>
    cases h
    rfl

theorem readRange_append {β : Type} (min max : F32) (steps : Int32)
    (f : F32 → F32 → Int32 → Cursor β) (rest : List UInt8) :
    (do
      let min ← Cursor.readF32
      let max ← Cursor.readF32
      let steps ← Cursor.readI32
      f min max steps : Cursor β) (f32Bytes min ++ f32Bytes max ++ i32Bytes steps ++ rest) =
      f min max steps rest := by
  rw [List.append_assoc, List.append_assoc, Cursor.bind_ok (Cursor.readF32_append _ _),
    Cursor.bind_ok (Cursor.readF32_append _ _), Cursor.bind_ok (Cursor.readI32_append _ _)]

theorem readItems_append {α β : Type} {write : α → Result (List UInt8)} {read : Cursor α}
    (hitem : ∀ i bytes rest, write i = .ok bytes → read (bytes ++ rest) = .ok (i, rest))
    {items : List α} {count body : List UInt8} (hcount : itemCount items.length = .ok count)
    (hbody : writeMany write items = .ok body) (f : List α → Cursor β) (rest : List UInt8) :
    (do
      let num ← Cursor.readU16
      let items ← Cursor.readMany read num.toNat
      f items : Cursor β) (count ++ body ++ rest) = f items rest := by
  obtain ⟨num, hnum, hn⟩ := Cursor.readU16_itemCount hcount (body ++ rest)
  rw [List.append_assoc, Cursor.bind_ok hnum, hn,
    Cursor.bind_ok (Cursor.readMany_append hitem hbody _)]

/-- Reading the fields of the type back. -/
theorem readFields_base {bytes raw : List UInt8} (h : d.typeBytes = .ok bytes) :
    Cursor.readFields (d.base raw) bytes = .ok (d.canonical raw, []) := by
  have hb : (d.base raw).nodeType = d.nodeType := rfl
  rw [← List.append_nil bytes]
  cases ht : d.nodeType <;> simp only [typeBytes, ht] at h <;>
    simp only [Cursor.readFields, hb, ht, canonical]
  case node | unknown nibble =>
    cases h
    rfl
  case string =>
    obtain ⟨len, hlen, h⟩ := Except.bind_eq_ok.1 h
    cases Except.pure_eq_ok.1 h
    rw [Cursor.bind_ok (Cursor.readU16_append _ _), required_eq_ok hlen]
    rfl
  case linearFloat | logarithmicFloat =>
    obtain ⟨min, hmin, h⟩ := Except.bind_eq_ok.1 h
    obtain ⟨max, hmax, h⟩ := Except.bind_eq_ok.1 h
    obtain ⟨steps, hsteps, h⟩ := Except.bind_eq_ok.1 h
    cases Except.pure_eq_ok.1 h
    rw [readRange_append, required_eq_ok hmin, required_eq_ok hmax, required_eq_ok hsteps]
    rfl
  case faderLevel =>
    -- The range is twelve bytes, so the reader finds it exactly when it was written.
    have hget : ∀ s : List UInt8, (get : Cursor (List UInt8)) s = .ok (s, s) := fun s => rfl
    rw [Cursor.bind_ok (hget _)]
    cases hmin : d.minFloat <;> cases hmax : d.maxFloat <;> cases hsteps : d.steps <;>
      simp only [hmin, hmax, hsteps] at h
    all_goals cases h
    · rw [if_neg (by simp), Cursor.pure_eq]
      simp [base, ht]
    · rename_i min max steps
      rw [if_pos (by simp), readRange_append]
      rfl
  case integer =>
    obtain ⟨min, hmin, h⟩ := Except.bind_eq_ok.1 h
    obtain ⟨max, hmax, h⟩ := Except.bind_eq_ok.1 h
    cases Except.pure_eq_ok.1 h
    rw [List.append_assoc, Cursor.bind_ok (Cursor.readI32_append _ _),
      Cursor.bind_ok (Cursor.readI32_append _ _), required_eq_ok hmin, required_eq_ok hmax]
    rfl
  case stringEnum =>
    obtain ⟨items, hitems, h⟩ := Except.bind_eq_ok.1 h
    obtain ⟨count, hcount, h⟩ := Except.bind_eq_ok.1 h
    obtain ⟨body, hbody, h⟩ := Except.bind_eq_ok.1 h
    cases Except.pure_eq_ok.1 h
    rw [readItems_append Cursor.readStringItem_append hcount hbody, required_eq_ok hitems]
    rfl
  case floatEnum =>
    obtain ⟨items, hitems, h⟩ := Except.bind_eq_ok.1 h
    obtain ⟨count, hcount, h⟩ := Except.bind_eq_ok.1 h
    obtain ⟨body, hbody, h⟩ := Except.bind_eq_ok.1 h
    cases Except.pure_eq_ok.1 h
    rw [readItems_append Cursor.readFloatItem_append hcount hbody, required_eq_ok hitems]
    rfl

/-! ### The header and the fields -/

/-- Where the flags end in the body of a definition. -/
def flagsEnd (d : WingNodeDef) : ℕ := 14 + (utf8 d.name).length + (utf8 d.longName).length

/-- A definition as its header tells it. -/
def header (d : WingNodeDef) (raw : List UInt8) : WingNodeDef :=
  { d.base raw with unit := .ofNibble d.unit.nibble }

theorem header_eq_base (hd : d.Readable) (raw : List UInt8) : d.header raw = d.base raw := by
  rw [header, (NodeUnit.ofNibble_nibble hd.2).1]
  rfl

theorem length_shortString {value : String} {bytes : List UInt8}
    (h : shortString value = .ok bytes) : bytes.length = 1 + (utf8 value).length := by
  unfold shortString at h
  split_ifs at h
  cases h
  rw [List.length_cons, Nat.add_comm]

/-- The body of a definition is its header, up to the end of the flags, and the fields of its
type. -/
theorem toWireBytes_eq {body : List UInt8} (ht : d.nodeType.Readable)
    (h : d.toWireBytes = .ok body) :
    ∃ front fields, body = front ++ fields ∧ front.length = d.flagsEnd ∧
      d.typeBytes = .ok fields ∧
      ∀ raw rest, Cursor.readHeader raw (front ++ rest) = .ok (d.header raw, rest) := by
  obtain ⟨name, hname, h⟩ := Except.bind_eq_ok.1 h
  obtain ⟨longName, hlong, h⟩ := Except.bind_eq_ok.1 h
  obtain ⟨fields, hfields, h⟩ := Except.bind_eq_ok.1 h
  obtain ⟨htype, hunit, hro⟩ := flags_type ht
  refine ⟨i32Bytes d.parentId ++ i32Bytes d.id ++ toBe16 d.index ++ name ++ longName ++
    toBe16 d.flags, fields, (Except.pure_eq_ok.1 h).symm, ?_, hfields, ?_⟩
  · simp only [List.length_append, length_i32Bytes, length_shortString hname,
      length_shortString hlong, toBe16, List.length_cons, List.length_nil, flagsEnd]
    omega
  · intro raw rest
    simp only [List.append_assoc]
    rw [Cursor.readHeader, Cursor.bind_ok (Cursor.readI32_append _ _),
      Cursor.bind_ok (Cursor.readI32_append _ _), Cursor.bind_ok (Cursor.readU16_append _ _),
      Cursor.bind_ok (Cursor.readShortString_append hname _),
      Cursor.bind_ok (Cursor.readShortString_append hlong _),
      Cursor.bind_ok (Cursor.readU16_append _ _), htype, hunit, hro]
    rfl

/-- A definition whose header was read is what its fields make it. -/
theorem fromBytes_of_header_ok {d' : WingNodeDef} {p s : List UInt8}
    (h : Cursor.readHeader p p = .ok (d', s)) :
    fromBytes p = (Cursor.readFields d' s).map Prod.fst := by
  have hread : Cursor.readDef p p = Cursor.readFields d' s := by
    rw [Cursor.readDef_eq, Cursor.bind_ok h]
  rw [fromBytes, hread]
  cases Cursor.readFields d' s with
  | error e => rfl
  | ok q => rfl

/-- **A definition survives the wire** in its canonical form. -/
theorem fromBytes_toWireBytes (hd : d.Readable) {body : List UInt8}
    (h : d.toWireBytes = .ok body) : fromBytes body = .ok (d.canonical body) := by
  obtain ⟨front, fields, rfl, -, hfields, hheader⟩ := toWireBytes_eq hd.1 h
  rw [fromBytes_of_header_ok (hheader _ _), header_eq_base hd, readFields_base hfields]
  rfl

end WingNodeDef

end LibWing
