import LibWing.Node.Codec

/-!
# Parsed definitions can be written again

Whatever body a definition was parsed from, writing it gives a body that parses to the same fields.

* `WingNodeDef.Parsed` : a definition as the reader leaves it;
* `WingNodeDef.fromBytes_parsed` : every definition that was read is one, however many bits and
  bytes of its body the reader ignored;
* `WingNodeDef.wire_codec` : both round trips;
* `WingNodeDef.wire_faithful_iff` : the definitions that keep their type and unit on the wire.
-/

namespace LibWing

open BigEndian

/-! ### What readers accept -/

namespace Cursor

variable {α β : Type}

/-- A reader that binds has two parts that succeed. -/
theorem bind_eq_ok {x : Cursor α} {f : α → Cursor β} {s s'' : List UInt8} {b : β} :
    (x >>= f) s = .ok (b, s'') ↔ ∃ a s', x s = .ok (a, s') ∧ f a s' = .ok (b, s'') := by
  change (x s >>= fun p => f p.1 p.2) = _ ↔ _
  rw [Except.bind_eq_ok]
  constructor
  · rintro ⟨⟨a, s'⟩, hx, hf⟩
    exact ⟨a, s', hx, hf⟩
  · rintro ⟨a, s', hx, hf⟩
    exact ⟨(a, s'), hx, hf⟩

theorem readShortString_writable {s s' : List UInt8} {value : String}
    (h : readShortString s = .ok (value, s')) : ∃ bytes, shortString value = .ok bytes := by
  obtain ⟨len, s₁, -, h⟩ := bind_eq_ok.1 h
  obtain ⟨bytes, s₂, htake, h⟩ := bind_eq_ok.1 h
  have hlen : bytes.length ≤ 255 := by
    unfold take at htake
    split_ifs at htake with hlt
    cases htake
    rw [List.length_take]
    exact (Nat.min_le_left _ _).trans (Nat.le_of_lt_succ len.toNat_lt)
  cases hutf : fromUtf8 bytes with
  | none =>
    rw [hutf] at h
    cases h
  | some v =>
    rw [hutf] at h
    cases h
    refine ⟨_, if_pos ?_⟩
    rw [utf8_fromUtf8 hutf]
    exact hlen

theorem readMany_writable {write : α → Result (List UInt8)} {read : Cursor α}
    (hitem : ∀ i s s', read s = .ok (i, s') → ∃ bytes, write i = .ok bytes) {n : ℕ}
    {items : List α} {s s' : List UInt8} (h : readMany read n s = .ok (items, s')) :
    items.length = n ∧ ∃ bytes, writeMany write items = .ok bytes := by
  induction n generalizing items s with
  | zero =>
    cases h
    exact ⟨rfl, [], rfl⟩
  | succ n ih =>
    obtain ⟨i, s₁, hi, h⟩ := bind_eq_ok.1 h
    obtain ⟨more, s₂, hmore, h⟩ := bind_eq_ok.1 h
    cases h
    obtain ⟨first, hfirst⟩ := hitem i s s₁ hi
    obtain ⟨hlen, rest, hrest⟩ := ih hmore
    refine ⟨by rw [List.length_cons, hlen], first ++ rest, ?_⟩
    rw [writeMany, hfirst, hrest]
    rfl

theorem readStringItem_writable (i : StringEnumItem) (s s' : List UInt8)
    (h : readStringItem s = .ok (i, s')) : ∃ bytes, stringItem i = .ok bytes := by
  obtain ⟨item, s₁, hitem, h⟩ := bind_eq_ok.1 h
  obtain ⟨longItem, s₂, hlong, h⟩ := bind_eq_ok.1 h
  cases h
  obtain ⟨first, hfirst⟩ := readShortString_writable hitem
  obtain ⟨rest, hrest⟩ := readShortString_writable hlong
  refine ⟨first ++ rest, ?_⟩
  rw [stringItem, hfirst, hrest]
  rfl

theorem readFloatItem_writable (i : FloatEnumItem) (s s' : List UInt8)
    (h : readFloatItem s = .ok (i, s')) : ∃ bytes, floatItem i = .ok bytes := by
  obtain ⟨item, s₁, -, h⟩ := bind_eq_ok.1 h
  obtain ⟨longItem, s₂, hlong, h⟩ := bind_eq_ok.1 h
  cases h
  obtain ⟨rest, hrest⟩ := readShortString_writable hlong
  refine ⟨f32Bytes item ++ rest, ?_⟩
  rw [floatItem, hrest]
  rfl

end Cursor

theorem itemCount_toNat (n : UInt16) : ∃ bytes, itemCount n.toNat = .ok bytes :=
  ⟨_, if_pos (Nat.le_of_lt_succ n.toNat_lt)⟩

/-! ### Nibbles that were read -/

theorem nibble_le (x : UInt16) : (x &&& 0x0f).toUInt8 ≤ 15 := by
  rw [UInt8.le_iff_toNat_le, UInt16.toNat_toUInt8, UInt16.toNat_and]
  exact (Nat.mod_le _ _).trans Nat.and_le_right

theorem unknownNibble_of_ne : ∀ n : UInt8, n ≤ 15 → n ≠ 0 → n ≠ 1 → n ≠ 2 → n ≠ 3 → n ≠ 4 →
    n ≠ 5 → n ≠ 6 → n ≠ 7 → 8 ≤ n ∧ n ≤ 15 := by
  decide +kernel

theorem NodeType.ofNibble_readable {n : UInt8} (hn : n ≤ 15) : (ofNibble n).Readable := by
  intro nibble h
  unfold ofNibble at h
  split_ifs at h with h0 h1 h2 h3 h4 h5 h6 h7
  cases h
  exact unknownNibble_of_ne n hn h0 h1 h2 h3 h4 h5 h6 h7

theorem NodeUnit.ofNibble_readable {n : UInt8} (hn : n ≤ 15) : (ofNibble n).Readable := by
  intro nibble h
  unfold ofNibble at h
  split_ifs at h with h0 h1 h2 h3 h4 h5 h6 h7
  cases h
  exact unknownNibble_of_ne n hn h0 h1 h2 h3 h4 h5 h6 h7

/-! ### What was parsed can be written -/

namespace WingNodeDef

/-- A definition as the reader leaves it: it can be written, and has only the fields that its type
uses. -/
structure Parsed (d : WingNodeDef) : Prop where
  /-- Its type can be read. -/
  readable : d.Readable
  /-- It can be written. -/
  writable : ∃ body, d.toWireBytes = .ok body
  /-- Reading it back changes nothing but the bytes it keeps. -/
  canonical : ∀ raw, d.canonical raw = { d with raw := raw }

variable {d d' : WingNodeDef}

theorem writeItems_ok {α : Type} {item : α → Result (List UInt8)} {items : List α} {num : UInt16}
    {body : List UInt8} (hlen : items.length = num.toNat)
    (hbody : writeMany item items = .ok body) :
    ∃ bytes, (do
      let count ← itemCount items.length
      let bytes ← writeMany item items
      return count ++ bytes : Result (List UInt8)) = .ok bytes := by
  obtain ⟨count, hcount⟩ := itemCount_toNat num
  refine ⟨count ++ body, ?_⟩
  rw [hlen, hcount, hbody]
  rfl

/-- The reader of the fields: the fields can be written, and nothing else has changed. -/
theorem readFields_writable {raw s s' : List UInt8} (hd : d.base raw = d)
    (h : Cursor.readFields d s = .ok (d', s')) :
    (∃ bytes, d'.typeBytes = .ok bytes) ∧ d'.base raw = d ∧
      ∀ raw', d'.canonical raw' = { d' with raw := raw' } := by
  rw [← hd] at h ⊢
  have hb : (d.base raw).nodeType = d.nodeType := rfl
  cases ht : d.nodeType <;> simp only [Cursor.readFields, hb, ht] at h
  case' node | unknown nibble =>
    cases h
    refine ⟨⟨[], by simp [typeBytes, hb, ht]⟩, ?_⟩
  case' string =>
    obtain ⟨len, s₁, -, h⟩ := Cursor.bind_eq_ok.1 h
    cases h
    refine ⟨⟨_, by simp only [typeBytes]; rfl⟩, ?_⟩
  case' linearFloat | logarithmicFloat =>
    obtain ⟨min, s₁, -, h⟩ := Cursor.bind_eq_ok.1 h
    obtain ⟨max, s₂, -, h⟩ := Cursor.bind_eq_ok.1 h
    obtain ⟨steps, s₃, -, h⟩ := Cursor.bind_eq_ok.1 h
    cases h
    refine ⟨⟨_, by simp only [typeBytes]; rfl⟩, ?_⟩
  case' faderLevel =>
    obtain ⟨left, s₀, -, h⟩ := Cursor.bind_eq_ok.1 h
    by_cases hrange : left.length ≥ 12
    · rw [if_pos hrange] at h
      obtain ⟨min, s₁, -, h⟩ := Cursor.bind_eq_ok.1 h
      obtain ⟨max, s₂, -, h⟩ := Cursor.bind_eq_ok.1 h
      obtain ⟨steps, s₃, -, h⟩ := Cursor.bind_eq_ok.1 h
      cases h
      exact ⟨⟨_, by simp only [typeBytes]; rfl⟩, by simp [base, ht], fun _ => by
        simp [canonical, ht, base]⟩
    rw [if_neg hrange] at h
    cases h
    refine ⟨⟨[], by simp [typeBytes, ht, base]⟩, ?_⟩
  case' integer =>
    obtain ⟨min, s₁, -, h⟩ := Cursor.bind_eq_ok.1 h
    obtain ⟨max, s₂, -, h⟩ := Cursor.bind_eq_ok.1 h
    cases h
    refine ⟨⟨_, by simp only [typeBytes]; rfl⟩, ?_⟩
  case' stringEnum =>
    obtain ⟨num, s₁, -, h⟩ := Cursor.bind_eq_ok.1 h
    obtain ⟨items, s₂, hitems, h⟩ := Cursor.bind_eq_ok.1 h
    cases h
    obtain ⟨hlen, body, hbody⟩ := Cursor.readMany_writable Cursor.readStringItem_writable hitems
    refine ⟨writeItems_ok hlen hbody, ?_⟩
  case' floatEnum =>
    obtain ⟨num, s₁, -, h⟩ := Cursor.bind_eq_ok.1 h
    obtain ⟨items, s₂, hitems, h⟩ := Cursor.bind_eq_ok.1 h
    cases h
    obtain ⟨hlen, body, hbody⟩ := Cursor.readMany_writable Cursor.readFloatItem_writable hitems
    refine ⟨writeItems_ok hlen hbody, ?_⟩
  -- Each type has filled in its own fields and no other.
  all_goals exact ⟨by simp [base, ht], fun _ => by simp [canonical, ht, base]⟩

/-- Every definition that was read can be written again. -/
theorem fromBytes_parsed {raw : List UInt8} (h : fromBytes raw = .ok d) : d.Parsed := by
  obtain ⟨⟨_, rest⟩, hread, h⟩ := Except.bind_eq_ok.1 h
  cases h
  obtain ⟨parentId, s₁, -, h⟩ := Cursor.bind_eq_ok.1 hread
  obtain ⟨id, s₂, -, h⟩ := Cursor.bind_eq_ok.1 h
  obtain ⟨index, s₃, -, h⟩ := Cursor.bind_eq_ok.1 h
  obtain ⟨name, s₄, hname, h⟩ := Cursor.bind_eq_ok.1 h
  obtain ⟨longName, s₅, hlong, h⟩ := Cursor.bind_eq_ok.1 h
  obtain ⟨flags, s₆, -, h⟩ := Cursor.bind_eq_ok.1 h
  obtain ⟨⟨fields, hfields⟩, hbase, hcanonical⟩ := readFields_writable (rfl : base _ raw = _) h
  have hnames : d.name = name ∧ d.longName = longName :=
    ⟨congrArg WingNodeDef.name hbase, congrArg WingNodeDef.longName hbase⟩
  refine ⟨⟨?_, ?_⟩, ?_, hcanonical⟩
  · have htype : d.nodeType = .ofNibble ((flags >>> 4) &&& 0x0f).toUInt8 :=
      congrArg WingNodeDef.nodeType hbase
    rw [htype]
    exact NodeType.ofNibble_readable (nibble_le _)
  · have hunit : d.unit = .ofNibble (flags &&& 0x0f).toUInt8 := congrArg WingNodeDef.unit hbase
    rw [hunit]
    exact NodeUnit.ofNibble_readable (nibble_le _)
  · obtain ⟨first, hfirst⟩ := Cursor.readShortString_writable hname
    obtain ⟨second, hsecond⟩ := Cursor.readShortString_writable hlong
    refine ⟨i32Bytes d.parentId ++ i32Bytes d.id ++ toBe16 d.index ++ first ++ second ++
      toBe16 d.flags ++ fields, ?_⟩
    rw [toWireBytes, hnames.1, hnames.2, hfirst, hsecond, hfields]
    rfl

/-- **The codec of definitions.**  A definition that can be written, with unknown nibbles that the
reader does not know, is read back in its canonical form; and a definition that was read, whatever
its body, can be written, reads back with the same fields, and is then written in the same way. -/
theorem wire_codec :
    (∀ (d : WingNodeDef) (body : List UInt8), d.Readable → d.toWireBytes = .ok body →
      fromBytes body = .ok (d.canonical body)) ∧
    (∀ (raw : List UInt8) (d : WingNodeDef), fromBytes raw = .ok d →
      ∃ body, d.toWireBytes = .ok body ∧ fromBytes body = .ok { d with raw := body } ∧
        { d with raw := body }.toWireBytes = .ok body) := by
  constructor
  · intro d body hd h
    exact fromBytes_toWireBytes hd h
  · intro raw d h
    have hparsed := fromBytes_parsed h
    obtain ⟨body, hbody⟩ := hparsed.writable
    refine ⟨body, hbody, ?_, hbody⟩
    rw [← hparsed.canonical]
    exact fromBytes_toWireBytes hparsed.readable hbody

/-- A fader level without a range, with flag bits that mean nothing and two bytes too many. -/
theorem wire_codec_fader : ∃ d body,
    fromBytes [0, 0, 0, 1, 0, 0, 0, 7, 0, 2, 1, 0x61, 0, 0xfe, 0x31, 5, 6] = .ok d ∧
      d.nodeType = .faderLevel ∧ d.toWireBytes = .ok body ∧ body.length = 15 ∧
      fromBytes body = .ok { d with raw := body } := by
  have hparse : (fromBytes [0, 0, 0, 1, 0, 0, 0, 7, 0, 2, 1, 0x61, 0, 0xfe, 0x31, 5,
    6]).toOption.map
      (fun d => (d.nodeType, (d.toWireBytes.toOption.map List.length))) =
      some (.faderLevel, some 15) := by decide +kernel
  cases h : fromBytes [0, 0, 0, 1, 0, 0, 0, 7, 0, 2, 1, 0x61, 0, 0xfe, 0x31, 5, 6] with
  | error e =>
    rw [h] at hparse
    cases hparse
  | ok d =>
    rw [h] at hparse
    obtain ⟨body, hbody, hread, -⟩ := wire_codec.2 _ d h
    simp only [Except.toOption, Option.map_some, hbody, Option.some.injEq, Prod.mk.injEq] at hparse
    exact ⟨d, body, rfl, hparse.1, hbody, hparse.2, hread⟩

/-! ### Values that are not nibbles -/

theorem canonical_type (d : WingNodeDef) (raw : List UInt8) :
    (d.canonical raw).nodeType = d.nodeType ∧ (d.canonical raw).unit = d.unit := by
  unfold canonical
  split <;> exact ⟨rfl, rfl⟩

/-- **When a definition keeps its type and unit on the wire.**  A definition that was written is
read back with its own type and unit exactly if its unknown values, if it has any, are nibbles that
the reader does not know: the writer masks every other value instead of refusing it. -/
theorem wire_faithful_iff {body : List UInt8} (h : d.toWireBytes = .ok body) :
    (∃ d', fromBytes body = .ok d' ∧ d'.nodeType = d.nodeType ∧ d'.unit = d.unit) ↔
      d.Readable := by
  constructor
  · rintro ⟨d', hread, htype, hunit⟩
    obtain ⟨ht, hu⟩ := (fromBytes_parsed hread).readable
    rw [htype] at ht
    rw [hunit] at hu
    exact ⟨ht, hu⟩
  · intro hd
    obtain ⟨htype, hunit⟩ := canonical_type d body
    exact ⟨_, fromBytes_toWireBytes hd h, htype, hunit⟩

/-- A node without names or fields, of the given type. -/
def bare (nodeType : NodeType) : WingNodeDef where
  id := 7
  parentId := 1
  index := 0
  name := ""
  longName := ""
  nodeType
  unit := .none
  readOnly := false
  minFloat := none
  maxFloat := none
  steps := none
  minInt := none
  maxInt := none
  maxStringLen := none
  stringEnum := none
  floatEnum := none
  raw := []

/-- A type with the nibble 9 keeps it. -/
theorem wire_faithful_nine : ∃ d',
    fromBytes [0, 0, 0, 1, 0, 0, 0, 7, 0, 0, 0, 0, 0, 0x90] = .ok d' ∧
      d'.nodeType = (bare (.unknown 9)).nodeType ∧ d'.unit = (bare (.unknown 9)).unit := by
  refine (wire_faithful_iff (d := bare (.unknown 9)) (by decide +kernel)).2 ⟨?_, ?_⟩
  · intro nibble h
    cases h
    exact ⟨by decide, by decide⟩
  · intro nibble h
    cases h

/-- The value 20 is written as the type of integers, without the fields an integer has. -/
theorem wire_masks_type :
    ¬ ∀ (d : WingNodeDef) (body : List UInt8), d.toWireBytes = .ok body →
      ∃ d', fromBytes body = .ok d' ∧ d'.nodeType = d.nodeType ∧ d'.unit = d.unit := by
  intro h
  obtain ⟨d', hread, -⟩ := h (bare (.unknown 20))
    [0, 0, 0, 1, 0, 0, 0, 7, 0, 0, 0, 0, 0, 0x40] (by decide +kernel)
  have herror : fromBytes [0, 0, 0, 1, 0, 0, 0, 7, 0, 0, 0, 0, 0, 0x40] = .error .invalidData := by
    decide +kernel
  rw [herror] at hread
  cases hread

end WingNodeDef

end LibWing
