import LibWing.Client.Agreement
import LibWing.Client.Remote
import LibWing.Node.Recode

/-!
# Enumerations

An entry of an enumeration is chosen by its name, its label or its index, and written by its name
or, if it stands for a float, by that float.  A console shows it by its index or by the float.

* `encodeEnum`, `writeEnum` : how an entry is chosen and written;
* `EnumEntry`, `WingNodeDef.entries` : the entries of a definition;
* `EnumKey.Chooses`, `encodeEnum_eq_some` : a key chooses the first entry that it fits;
* `EnumValue.ShownAs`, `WingNodeDef.Apart` : what a console shows of a value, and the definitions
  whose entries can be told apart by it;
* `WingNodeDef.apart_iff` : these are the definitions whose entries are read back;
* `writeEnum_chosen` : the entry that a key chooses is written, and is what is read back.
-/

namespace LibWing

open Stateful

/-! ### The calls -/

/-- `EnumKey`. -/
inductive EnumKey where
  | item (name : String)
  | longItem (name : String)
  | index (idx : ℕ)
  deriving DecidableEq, Repr

/-- `EnumValue`. -/
inductive EnumValue where
  | str (value : String)
  | float (value : F32)
  deriving DecidableEq, Repr

/-- `encode_enum`. -/
def encodeEnum (d : WingNodeDef) (key : EnumKey) : Option EnumValue :=
  match d.nodeType with
  | .stringEnum => do
    let items ← d.stringEnum
    let item ← match key with
      | .item name => items.find? fun i => i.item = name
      | .longItem name => items.find? fun i => i.longItem = name
      | .index idx => items[idx]?
    return .str item.item
  | .floatEnum => do
    let items ← d.floatEnum
    let item ← match key with
      | .item _ => none
      | .longItem name => items.find? fun i => i.longItem = name
      | .index idx => items[idx]?
    return .float item.item
  | _ => none

/-- `write_enum`. -/
def writeEnum (w : World) (id : Int32) (d : WingNodeDef) (key : EnumKey) : ConsoleM Unit :=
  match encodeEnum d key with
  | none => throw .invalidInput
  | some (.str s) => Console.setString w id s
  | some (.float f) => Console.setFloat w id f

/-! ### Entries -/

/-- An entry of an enumeration: its name, if it has one, its label, and what is written to choose
it. -/
structure EnumEntry where
  /-- The name of the item, unless it stands for a float. -/
  name : Option String
  /-- The text that it is shown as. -/
  label : String
  /-- What is written to choose it. -/
  value : EnumValue

/-- What an entry is decoded to. -/
def EnumEntry.decoded (e : EnumEntry) (index : ℕ) : EnumDecode :=
  match e.value with
  | .str item => .stringEnum item e.label index
  | .float item => .floatEnum item e.label index

/-- The entries of a definition. -/
def WingNodeDef.entries (d : WingNodeDef) : List EnumEntry :=
  match d.nodeType with
  | .stringEnum => (d.stringEnum.getD []).map fun i => ⟨some i.item, i.longItem, .str i.item⟩
  | .floatEnum => (d.floatEnum.getD []).map fun i => ⟨none, i.longItem, .float i.item⟩
  | _ => []

/-- The key is one of the entry with an index. -/
def EnumKey.Fits (index : ℕ) (e : EnumEntry) : EnumKey → Prop
  | .item name => e.name = some name
  | .longItem name => e.label = name
  | .index idx => index = idx

instance decidableFits (index : ℕ) (e : EnumEntry) : (key : EnumKey) → Decidable (key.Fits index e)
  | .item name => inferInstanceAs (Decidable (e.name = some name))
  | .longItem name => inferInstanceAs (Decidable (e.label = name))
  | .index idx => inferInstanceAs (Decidable (index = idx))

/-- A key chooses the first entry that it fits. -/
structure EnumKey.Chooses (key : EnumKey) (d : WingNodeDef) (index : ℕ) (e : EnumEntry) : Prop where
  /-- It is the entry at the index. -/
  entry : d.entries[index]? = some e
  /-- The key fits it. -/
  fits : key.Fits index e
  /-- The key fits no entry before it. -/
  first : ∀ j < index, ∀ e', d.entries[j]? = some e' → ¬ key.Fits j e'

variable {d : WingNodeDef} {key : EnumKey} {value : EnumValue} {index : ℕ} {e : EnumEntry}

/-- The entry that a key chooses. -/
def WingNodeDef.choose (d : WingNodeDef) : EnumKey → Option EnumEntry
  | .item name => d.entries.find? fun e => e.name = some name
  | .longItem name => d.entries.find? fun e => e.label = name
  | .index idx => d.entries[idx]?

theorem encodeEnum_eq (d : WingNodeDef) (key : EnumKey) :
    encodeEnum d key = (d.choose key).map EnumEntry.value := by
  unfold encodeEnum
  cases htype : d.nodeType with
  | stringEnum =>
    cases hitems : d.stringEnum <;> cases key <;>
      simp [WingNodeDef.choose, WingNodeDef.entries, htype, hitems, Function.comp_def] <;>
      exact Option.map_eq_bind.symm
  | floatEnum =>
    cases hitems : d.floatEnum <;> cases key <;>
      simp [WingNodeDef.choose, WingNodeDef.entries, htype, hitems, Function.comp_def] <;>
      exact Option.map_eq_bind.symm
  | _ => cases key <;> simp [WingNodeDef.choose, WingNodeDef.entries, htype]

/-- The first value that has a property. -/
theorem find?_eq_some_iff_getElem? {α : Type} {l : List α} {p : α → Bool} {a : α} :
    l.find? p = some a ↔
      ∃ i : ℕ, l[i]? = some a ∧ p a = true ∧ ∀ j < i, ∀ b, l[j]? = some b → p b = false := by
  rw [List.find?_eq_some_iff_getElem]
  constructor
  · rintro ⟨hp, i, hi, rfl, hfirst⟩
    refine ⟨i, List.getElem?_eq_getElem hi, hp, fun j hj b hb => ?_⟩
    obtain ⟨_, rfl⟩ := List.getElem?_eq_some_iff.1 hb
    simpa using hfirst j hj
  · rintro ⟨i, hi, hp, hfirst⟩
    obtain ⟨hlt, rfl⟩ := List.getElem?_eq_some_iff.1 hi
    refine ⟨hp, i, hlt, rfl, fun j hj => ?_⟩
    simpa using hfirst j hj _ (List.getElem?_eq_getElem (hj.trans hlt))

theorem choose_eq_some : d.choose key = some e ↔ ∃ index, key.Chooses d index e := by
  cases key with
  | item name =>
    rw [WingNodeDef.choose, find?_eq_some_iff_getElem?]
    refine exists_congr fun i => ⟨fun ⟨hi, hp, hfirst⟩ => ⟨hi, of_decide_eq_true hp, ?_⟩,
      fun h => ⟨h.entry, decide_eq_true h.fits, ?_⟩⟩
    · exact fun j hj b hb => of_decide_eq_false (hfirst j hj b hb)
    · exact fun j hj b hb => decide_eq_false (h.first j hj b hb)
  | longItem name =>
    rw [WingNodeDef.choose, find?_eq_some_iff_getElem?]
    refine exists_congr fun i => ⟨fun ⟨hi, hp, hfirst⟩ => ⟨hi, of_decide_eq_true hp, ?_⟩,
      fun h => ⟨h.entry, decide_eq_true h.fits, ?_⟩⟩
    · exact fun j hj b hb => of_decide_eq_false (hfirst j hj b hb)
    · exact fun j hj b hb => decide_eq_false (h.first j hj b hb)
  | index idx =>
    constructor
    · exact fun h => ⟨idx, h, rfl, fun j hj _ _ hfits => hj.ne hfits⟩
    · rintro ⟨i, hi, rfl, -⟩
      exact hi

/-- **What is written is the value of the entry that the key chooses.** -/
theorem encodeEnum_eq_some :
    encodeEnum d key = some value ↔ ∃ index e, key.Chooses d index e ∧ e.value = value := by
  rw [encodeEnum_eq, Option.map_eq_some_iff]
  constructor
  · rintro ⟨e, he, hvalue⟩
    obtain ⟨index, h⟩ := choose_eq_some.1 he
    exact ⟨index, e, h, hvalue⟩
  · rintro ⟨index, e, h, hvalue⟩
    exact ⟨e, choose_eq_some.2 ⟨index, h⟩, hvalue⟩

/-! ### What is shown -/

/-- `==` of values. -/
def EnumValue.same : EnumValue → EnumValue → Bool
  | .str a, .str b => a = b
  | .float a, .float b => a.eq b
  | _, _ => false

/-- What a console may show of a value that it has taken: the index of an entry with this name, or
the float. -/
inductive EnumValue.ShownAs (d : WingNodeDef) : EnumValue → WingNodeData → Prop
  | index {name : String} {index : Int32} {e : EnumEntry} (hindex : 0 ≤ index.toInt)
      (hentry : d.entries[index.toInt.toNat]? = some e) (hname : e.value = .str name) :
      ShownAs d (.str name) (.withI32 index)
  | float (value : F32) : ShownAs d (.float value) (.withFloat value)

/-- The entries can be told apart by their values. -/
structure WingNodeDef.Apart (d : WingNodeDef) : Prop where
  /-- No entry stands for a NaN, … -/
  self : ∀ e ∈ d.entries, e.value.same e.value = true
  /-- … and none for the value of an earlier one. -/
  pairwise : d.entries.Pairwise fun a b => a.value.same b.value = false

variable {t : Texts} {data : WingNodeData}

theorem decodeEnum_str {name : String} (h : d.entries[index]? = some e)
    (hname : e.value = .str name)
    {i : Int32} (hi : 0 ≤ i.toInt) (hindex : i.toInt.toNat = index) :
    (WingNodeData.withI32 i).decodeEnum t d = e.decoded index := by
  subst hindex
  cases htype : d.nodeType with
  | stringEnum =>
    rw [WingNodeDef.entries, htype] at h
    cases hitems : d.stringEnum with
    | none => simp [hitems] at h
    | some items =>
      simp only [hitems, Option.getD_some, List.getElem?_map, Option.map_eq_some_iff] at h
      obtain ⟨item, hitem, rfl⟩ := h
      simp only [WingNodeData.decodeEnum, WingNodeData.withI32, htype, hitems, if_pos hi, hitem,
        EnumEntry.decoded]
  | floatEnum =>
    rw [WingNodeDef.entries, htype] at h
    simp only [List.getElem?_map, Option.map_eq_some_iff] at h
    obtain ⟨item, -, rfl⟩ := h
    cases hname
  | _ => simp [WingNodeDef.entries, htype] at h

theorem decodeEnum_float {value : F32} {items : List FloatEnumItem}
    (htype : d.nodeType = .floatEnum)
    (hitems : d.floatEnum = some items) {label : String} {item : F32} :
    (WingNodeData.withFloat value).decodeEnum t d = .floatEnum item label index ↔
      items[index]? = some ⟨item, label⟩ ∧ item.eq value = true ∧
        ∀ j < index, ∀ i, items[j]? = some i → i.item.eq value = false := by
  have hfind : (items.zipIdx.find? fun x => x.1.item.eq value) = some (⟨item, label⟩, index) ↔
      items[index]? = some ⟨item, label⟩ ∧ item.eq value = true ∧
        ∀ j < index, ∀ i, items[j]? = some i → i.item.eq value = false := by
    rw [find?_eq_some_iff_getElem?]
    constructor
    · rintro ⟨i, hi, hsame, hfirst⟩
      rw [List.getElem?_zipIdx, Option.map_eq_some_iff] at hi
      obtain ⟨x, hx, heq⟩ := hi
      obtain ⟨rfl, rfl⟩ := Prod.mk.inj heq
      rw [Nat.zero_add] at *
      refine ⟨hx, hsame, fun j hj y hy => hfirst j hj (y, 0 + j) ?_⟩
      rw [List.getElem?_zipIdx, hy]
      rfl
    · rintro ⟨hi, hsame, hfirst⟩
      refine ⟨index, ?_, hsame, fun j hj x hx => ?_⟩
      · rw [List.getElem?_zipIdx, hi, Nat.zero_add]
        rfl
      · rw [List.getElem?_zipIdx, Option.map_eq_some_iff] at hx
        obtain ⟨y, hy, rfl⟩ := hx
        exact hfirst j hj y hy
  rw [← hfind]
  simp only [WingNodeData.decodeEnum, WingNodeData.withFloat, htype, hitems]
  generalize (items.zipIdx.find? fun x => x.1.item.eq value) = found
  rcases found with _ | ⟨⟨item', label'⟩, index'⟩
  · simp
  · simp [and_assoc]

theorem entries_float {items : List FloatEnumItem} (htype : d.nodeType = .floatEnum)
    (hitems : d.floatEnum = some items) :
    d.entries = items.map fun i => ⟨none, i.longItem, .float i.item⟩ := by
  simp [WingNodeDef.entries, htype, hitems]

theorem exists_float {value : F32} (hentry : d.entries[index]? = some e)
    (hvalue : e.value = .float value) :
      ∃ items, d.nodeType = .floatEnum ∧ d.floatEnum = some items ∧
      items[index]? = some ⟨value, e.label⟩ := by
  cases htype : d.nodeType with
  | floatEnum =>
    cases hitems : d.floatEnum with
    | none => simp [WingNodeDef.entries, htype, hitems] at hentry
    | some items =>
      rw [entries_float htype hitems, List.getElem?_map, Option.map_eq_some_iff] at hentry
      obtain ⟨⟨item, label⟩, hitem, rfl⟩ := hentry
      obtain rfl : item = value := EnumValue.float.inj hvalue
      exact ⟨items, rfl, rfl, hitem⟩
  | stringEnum =>
    simp only [WingNodeDef.entries, htype, List.getElem?_map, Option.map_eq_some_iff] at hentry
    obtain ⟨item, -, rfl⟩ := hentry
    cases hvalue
  | _ => simp [WingNodeDef.entries, htype] at hentry

namespace WingNodeDef

/-- Two entries differ in their values. -/
theorem Apart.differ (h : d.Apart) {i j : ℕ} {a b : EnumEntry} (hij : i < j)
    (hi : d.entries[i]? = some a) (hj : d.entries[j]? = some b) : a.value.same b.value = false := by
  obtain ⟨hilt, rfl⟩ := List.getElem?_eq_some_iff.1 hi
  obtain ⟨hjlt, rfl⟩ := List.getElem?_eq_some_iff.1 hj
  exact List.pairwise_iff_getElem.1 h.pairwise i j hilt hjlt hij

theorem Apart.index_eq (h : d.Apart) {i j : ℕ} {a b : EnumEntry} (hi : d.entries[i]? = some a)
    (hj : d.entries[j]? = some b) (hvalue : a.value = b.value) : i = j := by
  have hself := h.self a (List.mem_of_getElem? hi)
  rcases lt_trichotomy i j with hlt | heq | hlt
  · have hdiff := h.differ hlt hi hj
    rw [← hvalue, hself] at hdiff
    cases hdiff
  · exact heq
  · have hdiff := h.differ hlt hj hi
    rw [← hvalue, hself] at hdiff
    cases hdiff

/-- An entry is read back, if the entries can be told apart. -/
theorem Apart.decodeEnum (h : d.Apart) (t : Texts) (hentry : d.entries[index]? = some e)
    (hshown : e.value.ShownAs d data) : data.decodeEnum t d = e.decoded index := by
  generalize hvalue : e.value = value at hshown
  cases hshown with
  | @index name i e' hi hentry' hname =>
    have hindex := h.index_eq hentry hentry' (hvalue.trans hname.symm)
    exact decodeEnum_str hentry hvalue hi hindex.symm
  | float value =>
    obtain ⟨items, htype, hitems, hitem⟩ := exists_float hentry hvalue
    have hself := h.self e (List.mem_of_getElem? hentry)
    rw [hvalue] at hself
    rw [EnumEntry.decoded, hvalue]
    refine (decodeEnum_float htype hitems).2 ⟨hitem, hself, fun j hj i hi => ?_⟩
    -- An earlier entry is told apart from this one.
    have hearlier : d.entries[j]? = some ⟨none, i.longItem, .float i.item⟩ := by
      rw [entries_float htype hitems, List.getElem?_map, hi]
      rfl
    have hdiff := h.differ hj hearlier hentry
    rw [hvalue] at hdiff
    exact hdiff

/-- **The entries are read back if and only if they can be told apart.** -/
theorem apart_iff (t : Texts) (hsize : d.entries.length ≤ 2 ^ 31) : d.Apart ↔
    ∀ (index : ℕ) (e : EnumEntry) (data : WingNodeData), d.entries[index]? = some e →
      e.value.ShownAs d data → data.decodeEnum t d = e.decoded index := by
  refine ⟨fun h index e data hentry => h.decodeEnum t hentry, fun h => ⟨fun e he => ?_, ?_⟩⟩
  · obtain ⟨index, hentry⟩ := List.mem_iff_getElem?.1 he
    cases hvalue : e.value with
    | str name => simp [EnumValue.same]
    | float value =>
      obtain ⟨items, htype, hitems, -⟩ := exists_float hentry hvalue
      have hdecoded := h index e (.withFloat value) hentry (hvalue ▸ .float value)
      rw [EnumEntry.decoded, hvalue] at hdecoded
      exact ((decodeEnum_float htype hitems).1 hdecoded).2.1
  · refine List.pairwise_iff_getElem.2 fun i j hilt hjlt hij => Bool.eq_false_iff.2 fun hsame => ?_
    have hi := List.getElem?_eq_getElem hilt
    have hj := List.getElem?_eq_getElem hjlt
    generalize d.entries[i] = a at hi hsame
    generalize d.entries[j] = b at hj hsame
    cases ha : a.value with
    | str name =>
      cases hb : b.value with
      | str name' =>
        -- A console may show the later one by the index of the earlier one.
        rw [ha, hb] at hsame
        obtain rfl : name = name' := of_decide_eq_true hsame
        have hindex : (Int32.ofNat i).toInt = i := Int32.toInt_ofNat_of_lt (by omega)
        have hnonneg : 0 ≤ (Int32.ofNat i).toInt := hindex ▸ Int.natCast_nonneg i
        have hat : (Int32.ofNat i).toInt.toNat = i := by rw [hindex, Int.toNat_natCast]
        have hlater := h j b (.withI32 (Int32.ofNat i)) hj
          (hb ▸ .index hnonneg (by rw [hat]; exact hi) ha)
        rw [decodeEnum_str hi ha hnonneg hat, EnumEntry.decoded, EnumEntry.decoded, ha,
          hb] at hlater
        exact hij.ne (EnumDecode.stringEnum.inj hlater).2.2
      | float value =>
        rw [ha, hb] at hsame
        cases hsame
    | float value =>
      cases hb : b.value with
      | str name =>
        rw [ha, hb] at hsame
        cases hsame
      | float value' =>
        -- The earlier one is found first.
        rw [ha, hb] at hsame
        obtain ⟨items, htype, hitems, hitem⟩ := exists_float hi ha
        have hlater := h j b (.withFloat value') hj (hb ▸ .float value')
        rw [EnumEntry.decoded, hb] at hlater
        have hfirst := ((decodeEnum_float htype hitems).1 hlater).2.2 i hij _ hitem
        exact Bool.false_ne_true (hfirst.symm.trans hsame)

end WingNodeDef

/-- An enumeration of two letters. -/
def letters : WingNodeDef :=
  { WingNodeDef.bare .stringEnum with stringEnum := some [⟨"A", "Alpha"⟩, ⟨"B", "Bravo"⟩] }

theorem letters_apart : letters.Apart := ⟨by decide, by decide⟩

/-- The index of the second letter is decoded to it. -/
theorem apart_iff_letters : (WingNodeData.withI32 1).decodeEnum
    ⟨fun _ => "", fun _ => "", fun _ => "", fun _ => ""⟩ letters = .stringEnum "B" "Bravo" 1 :=
  (WingNodeDef.apart_iff _ (by decide)).1 letters_apart 1 ⟨some "B", "Bravo", .str "B"⟩ _ rfl
    (.index (by decide) rfl rfl)

/-! ### What is written -/

/-- The value of the request. -/
def EnumValue.native : EnumValue → NativeValue
  | .str value => .string value
  | .float value => .float value

/-- The operation that writes a value. -/
def EnumValue.op (id : Int32) : EnumValue → ClientOp
  | .str value => .setString id value
  | .float value => .setFloat id value

variable {w : World} {id : Int32} {c c' : Console} {bytes : List UInt8}

theorem EnumValue.op_requests (value : EnumValue) :
    (value.op id).requests = [.set id value.native] := by
  cases value <;> rfl

theorem EnumValue.op_admissible (h : (value.op id).message = .ok bytes) :
    (value.op id).Admissible := by
  cases value with
  | str value => exact setString_admissible h
  | float value => exact True.intro

theorem writeEnum_eq (h : encodeEnum d key = some value) :
    writeEnum w id d key = Console.setMessage w (value.op id).message := by
  cases value <;> simp only [writeEnum, h] <;> rfl

/-- What a call that returns has done for an entry. -/
structure EnumWritten (t : Texts) (id : Int32) (d : WingNodeDef) (c : Console) (index : ℕ)
    (e : EnumEntry)
    (c' : Console) : Prop where
  /-- One message is written, which a server reads as a request to set the node to the value of the
  entry. -/
  sent : ∃ bytes, c'.wsock = c.wsock ++ [bytes] ∧ ∀ server : NativeRequestDecoder, server.Ready →
    ∃ server', server.decodeAll bytes = .ok ([.set id e.value.native], server') ∧ server'.Ready
  /-- Whatever a console that has taken it shows is decoded to the entry. -/
  shown : d.Apart → ∀ data, e.value.ShownAs d data → data.decodeEnum t d = e.decoded index

/-- **A choice is written and read back.**  Either the key chooses an entry, and a call that returns
has written it; or the key chooses none, and the call fails without a trace. -/
theorem writeEnum_chosen (t : Texts) (hc : c.Ready) {result : Except Error Unit}
    (h : outcome (writeEnum w id d key) c = (result, c')) :
    (∃ index e, key.Chooses d index e ∧ (result = .ok () → EnumWritten t id d c index e c')) ∨
      (∀ index e, ¬ key.Chooses d index e) ∧ result = .error .invalidInput ∧ c' = c := by
  cases hvalue : encodeEnum d key with
  | none =>
    refine .inr ⟨fun index e hchooses => ?_, ?_⟩
    · rw [encodeEnum_eq_some.2 ⟨index, e, hchooses, rfl⟩] at hvalue
      cases hvalue
    · simp only [writeEnum, hvalue] at h
      cases h
      exact ⟨rfl, rfl⟩
  | some value =>
    obtain ⟨index, e, hchooses, rfl⟩ := encodeEnum_eq_some.1 hvalue
    refine .inl ⟨index, e, hchooses,
      fun hok => ⟨?_, fun hapart data => hapart.decodeEnum t hchooses.entry⟩⟩
    subst hok
    rw [writeEnum_eq hvalue] at h
    rcases (Console.setMessage_spec (w := w) hc (e.value.op id).message).outcome rfl with
      ⟨_, c₁, hrun, -, bytes, hbytes, hwsock⟩ | ⟨_, c₁, hrun, -⟩
    · cases hrun.symm.trans h
      refine ⟨bytes, hwsock, fun server hserver => ?_⟩
      obtain ⟨bytes', server', hbytes', hread, hready⟩ :=
        NativeRequestDecoder.decodeAll_message hserver (EnumValue.op_admissible hbytes)
      cases hbytes.symm.trans hbytes'
      rw [EnumValue.op_requests] at hread
      exact ⟨server', hread, hready⟩
    · cases hrun.symm.trans h

/-- A letter is chosen by its label. -/
theorem writeEnum_chosen_letters :
    ∃ c' index e, outcome (writeEnum .steady 7 letters (.longItem "Bravo")) (Console.new 0 []) =
        (.ok (), c') ∧
      EnumKey.Chooses (.longItem "Bravo") letters index e ∧ letters.Apart ∧
      EnumWritten ⟨fun _ => "", fun _ => "", fun _ => "", fun _ => ""⟩ 7 letters
        (Console.new 0 []) index e
        c' := by
  rcases hrun : outcome (writeEnum .steady 7 letters (.longItem "Bravo")) (Console.new 0 []) with
    ⟨result, c'⟩
  have hok : (outcome (writeEnum .steady 7 letters (.longItem "Bravo")) (Console.new 0 [])).1 =
      .ok () := by
    decide +kernel
  rw [hrun] at hok
  obtain rfl : result = .ok () := hok
  rcases writeEnum_chosen ⟨fun _ => "", fun _ => "", fun _ => "", fun _ => ""⟩ ⟨rfl, rfl⟩ hrun with
    ⟨index, e, hchooses, hwritten⟩ | ⟨-, herror, -⟩
  · exact ⟨c', index, e, rfl, hchooses, letters_apart, hwritten rfl⟩
  · cases herror

end LibWing
