import LibWing.Console.RoundTrip

/-!
# The tokens of a reply

The reply to a data request is a sequence of value tokens, node selectors and navigation tokens up
to the end of the reply.  A token is framed by its opcode alone: how many bytes follow does not
depend on what they mean.  The parser of the client also interprets them.

* `ReplyToken` : a framed token;
* `ReplyToken.isUtf8` : the string of the token, if it carries one, is UTF-8;
* `ReplyToken.value`, `ReplyToken.selects` : what a token means;
* `Takes` : a parser takes exactly some bytes off a stream if there is room for them and they are
  valid, and fails otherwise;
* `takes_readToken` : the parser takes a token exactly if its string is UTF-8, and makes of it what
  it means.
-/

namespace LibWing

open Stateful

/-- `payload` is what follows the opcode `cmd` of a value, a selector or a navigation. -/
def framed (cmd : UInt8) (payload : List UInt8) : Bool :=
  match Opcode.ofByte cmd with
  | .smallInt | .index | .emptyString | .click | .root | .up | .data | .definition =>
    payload.length = 0
  | .shortString => payload.length = (cmd - 0x7f).toNat
  | .name => payload.length = (cmd - 0xbf).toNat
  | .longString =>
    match payload with
    | [] => false
    | len :: bytes => bytes.length = len.toNat + 1
  | .index16 | .int16 => payload.length = 2
  | .int32 | .float | .rawFloat | .nodeId => payload.length = 4
  | .step => payload.length = 1
  | .requestEnd | .nodeDef | .unknown => false

/-- A value token, a node selector or a navigation token, with any bytes for its strings. -/
structure ReplyToken where
  /-- The opcode. -/
  cmd : UInt8
  /-- The bytes behind it. -/
  payload : List UInt8
  /-- They are as many as the opcode asks for. -/
  framed : LibWing.framed cmd payload = true

namespace ReplyToken

/-- The token on the wire, before escaping. -/
def bytes (t : ReplyToken) : List UInt8 := t.cmd :: t.payload

/-- The string of the token, if its value is one. -/
def text (t : ReplyToken) : Option (List UInt8) :=
  match Opcode.ofByte t.cmd with
  | .shortString => some t.payload
  | .longString => some t.payload.tail
  | _ => none

/-- The string of the token, if it carries one, is UTF-8. -/
def isUtf8 (t : ReplyToken) : Bool :=
  match t.text with
  | some text => (fromUtf8 text).isSome
  | none => true

/-- The value the token carries. -/
def value (t : ReplyToken) : Option NativeValue :=
  match Opcode.ofByte t.cmd, t.payload with
  | .smallInt, _ => some (.integer t.cmd.toUInt32.toInt32)
  | .shortString, text => some (.string (fromUtf8Lossy text))
  | .emptyString, _ => some (.string "")
  | .longString, _ :: text => some (.string (fromUtf8Lossy text))
  | .int16, [a, b] => some (.integer (i16OfBytes a b))
  | .int32, [a, b, c, d] => some (.integer (i32OfBytes a b c d))
  | .float, [a, b, c, d] => some (.float (f32OfBytes a b c d))
  | .rawFloat, [a, b, c, d] => some (.rawFloat (f32OfBytes a b c d))
  | _, _ => none

/-- The node the token selects. -/
def selects (t : ReplyToken) : Option Int32 :=
  match Opcode.ofByte t.cmd, t.payload with
  | .nodeId, [a, b, c, d] => some (i32OfBytes a b c d)
  | _, _ => none

/-- The current node after the token. -/
def nodeId (t : ReplyToken) (id : Int32) : Int32 := t.selects.getD id

/-- The response the token is, when node `id` is the current one. -/
def response (t : ReplyToken) (id : Int32) : Option WingResponse :=
  t.value.map fun v => .nodeData id v.received

theorem response_ne_requestEnd (t : ReplyToken) (id : Int32) :
    t.response id ≠ some .requestEnd := by
  unfold response
  cases t.value with
  | none => nofun
  | some v => nofun

end ReplyToken

/-! ### Parsers that take some bytes or fail -/

/-- From a stream of which at least `m` bytes have been taken, `x` takes exactly `bytes` and returns
`a` if there is room for them and they are `valid`, and fails otherwise. -/
def Takes {α : Type} (m : ℕ) (x : EStateM Error Stream α) (bytes : List UInt8) (id : Int32)
    (valid : Bool) (a : α) (id' : Int32) : Prop :=
  ∀ rest n, m ≤ n → n ≤ maxNativeResponseBytes →
    if n + bytes.length ≤ maxNativeResponseBytes ∧ valid = true then
      x ⟨bytes.map audioSymbol ++ rest, id, n⟩ = .ok a ⟨rest, id', n + bytes.length⟩
    else ∃ e s, x ⟨bytes.map audioSymbol ++ rest, id, n⟩ = .error e s

namespace Takes

variable {α β : Type} {m : ℕ} {x : EStateM Error Stream α} {f : α → EStateM Error Stream β}
  {b₁ b₂ : List UInt8} {id id₁ id₂ : Int32} {v₁ v₂ : Bool} {a : α} {b : β}

theorem pure (a : α) (id : Int32) : Takes m (Pure.pure a) [] id true a id := by
  intro rest n _ hn
  rw [if_pos ⟨hn, rfl⟩]
  rfl

theorem throw (e : Error) (a : α) (id : Int32) :
    Takes m (MonadExcept.throw e) [] id false a id := by
  intro rest n _ _
  rw [if_neg fun h => Bool.false_ne_true h.2]
  exact ⟨e, _, rfl⟩

theorem bind (hx : Takes m x b₁ id v₁ a id₁) (hf : Takes (m + b₁.length) (f a) b₂ id₁ v₂ b id₂) :
    Takes m (x >>= f) (b₁ ++ b₂) id (v₁ && v₂) b id₂ := by
  intro rest n hm hn
  have h₁ := hx (b₂.map audioSymbol ++ rest) n hm hn
  have hrun : ∀ s, (x >>= f) s = EStateM.bind x f s := fun _ => rfl
  rw [List.map_append, List.append_assoc, List.length_append, hrun]
  by_cases hfits : n + b₁.length ≤ maxNativeResponseBytes ∧ v₁ = true
  · rw [if_pos hfits] at h₁
    have h₂ := hf rest (n + b₁.length) (by omega) hfits.1
    simp only [EStateM.bind, h₁, hfits.2, Bool.true_and, ← Nat.add_assoc]
    exact h₂
  · -- What comes after a failure does not matter.
    rw [if_neg hfits] at h₁
    obtain ⟨e, s, h₁⟩ := h₁
    have hno : ¬ (n + (b₁.length + b₂.length) ≤ maxNativeResponseBytes ∧ (v₁ && v₂) = true) := by
      rw [Bool.and_eq_true]
      exact fun h => hfits ⟨by omega, h.2.1⟩
    rw [if_neg hno]
    exact ⟨e, s, by simp only [EStateM.bind, h₁]⟩

/-- A program that takes nothing after `x`. -/
theorem bind_nil (hx : Takes m x b₁ id true a id₁)
    (hf : Takes (m + b₁.length) (f a) [] id₁ v₂ b id₂) :
    Takes m (x >>= f) b₁ id v₂ b id₂ := by
  have h := hx.bind hf
  rwa [List.append_nil, Bool.true_and] at h

theorem next (byte : UInt8) (id : Int32) : Takes m Stream.next [byte] id true (1, byte) id := by
  intro rest n _ hn
  by_cases hroom : n ≥ maxNativeResponseBytes
  · rw [if_neg fun h => by simp only [List.length_singleton] at h; omega]
    refine ⟨.invalidData, ⟨rest, id, n⟩, ?_⟩
    simp only [Stream.next, List.map_cons, List.map_nil, List.cons_append, List.nil_append,
      audioSymbol, hroom, ↓reduceIte]
  · rw [if_pos ⟨by simp only [List.length_singleton]; omega, rfl⟩]
    simp only [Stream.next, List.map_cons, List.map_nil, List.cons_append, List.nil_append,
      audioSymbol, hroom, ↓reduceIte, List.length_singleton]

theorem readU8 (a : UInt8) (id : Int32) : Takes m Stream.source.readU8 [a] id true a id :=
  (next a id).bind_nil (pure _ _)

theorem readU16 (a b : UInt8) (id : Int32) :
    Takes m Stream.source.readU16 [a, b] id true (BigEndian.fromBe16 a b) id :=
  (next a id).bind ((next b id).bind_nil (pure _ _))

theorem readU32 (a b c d : UInt8) (id : Int32) :
    Takes m Stream.source.readU32 [a, b, c, d] id true (BigEndian.fromBe32 a b c d) id :=
  (next a id).bind ((next b id).bind ((next c id).bind ((next d id).bind_nil (pure _ _))))

theorem readBytes (bytes : List UInt8) (id : Int32) :
    Takes m (Stream.source.readBytes bytes.length) bytes id true bytes id := by
  induction bytes generalizing m with
  | nil => exact pure [] id
  | cons byte bytes ih => exact (next byte id).bind (ih.bind_nil (pure _ _))

/-- A string is taken exactly if it is UTF-8. -/
theorem readString (bytes : List UInt8) (id : Int32) :
    Takes m (Stream.source.readString bytes.length) bytes id (fromUtf8 bytes).isSome
      (fromUtf8Lossy bytes) id := by
  refine (readBytes bytes id).bind_nil ?_
  unfold fromUtf8Lossy
  cases fromUtf8 bytes with
  | none => exact throw .invalidData _ id
  | some value => exact pure value id

theorem nodeData (data : WingNodeData) (id : Int32) :
    Takes m (Stream.source.nodeData data) [] id true (some (.nodeData id data)) id := by
  intro rest n _ hn
  rw [if_pos ⟨hn, rfl⟩]
  rfl

/-- A string value. -/
theorem stringValue (bytes : List UInt8) (id : Int32) :
    Takes m (do
      let v ← Stream.source.readString bytes.length
      Stream.source.nodeData (.withString v)) bytes id (fromUtf8 bytes).isSome
      (some (.nodeData id (.withString (fromUtf8Lossy bytes)))) id := by
  have hdata : Takes (m + bytes.length)
      (Stream.source.nodeData (.withString (fromUtf8Lossy bytes))) [] id true _ id :=
    nodeData _ id
  have h := bind (f := fun v => Stream.source.nodeData (.withString v)) (readString bytes id) hdata
  rwa [List.append_nil, Bool.and_true] at h

/-- A token from its opcode and the rest. -/
theorem readToken {cmd : UInt8} {bytes : List UInt8} {r : Option WingResponse}
    (h : Takes (m + 1) (Stream.source.token cmd) bytes id v₁ r id₁) :
    Takes m Stream.source.readToken (cmd :: bytes) id v₁ r id₁ := by
  have hbind : Takes m Stream.source.readToken ([cmd] ++ bytes) id (true && v₁) r id₁ :=
    (next cmd id).bind h
  rwa [Bool.true_and] at hbind

end Takes

/-- The payload of a token with four bytes. -/
theorem length_eq_four {l : List UInt8} (h : l.length = 4) : ∃ a b c d, l = [a, b, c, d] := by
  match l, h with
  | [a, b, c, d], _ => exact ⟨a, b, c, d, rfl⟩

theorem length_eq_two {l : List UInt8} (h : l.length = 2) : ∃ a b, l = [a, b] := by
  match l, h with
  | [a, b], _ => exact ⟨a, b, rfl⟩

/-- **The parser takes a token exactly if its string is UTF-8**, and makes of it what it means. -/
theorem takes_readToken (m : ℕ) (t : ReplyToken) (id : Int32) :
    Takes m Stream.source.readToken t.bytes id t.isUtf8 (t.response id) (t.nodeId id) := by
  obtain ⟨cmd, payload, hframed⟩ := t
  unfold ReplyToken.bytes ReplyToken.isUtf8 ReplyToken.text ReplyToken.response ReplyToken.nodeId
    ReplyToken.value ReplyToken.selects
  unfold LibWing.framed at hframed
  refine Takes.readToken ?_
  cases hop : Opcode.ofByte cmd with
  | smallInt =>
    simp only [hop, decide_eq_true_eq] at hframed ⊢
    rw [List.eq_nil_of_length_eq_zero hframed]
    simp only [Source.token, hop]
    exact Takes.nodeData _ id
  | index | click | root | up | data | definition =>
    simp only [hop, decide_eq_true_eq] at hframed ⊢
    rw [List.eq_nil_of_length_eq_zero hframed]
    simp only [Source.token, hop]
    exact Takes.pure none id
  | emptyString =>
    simp only [hop, decide_eq_true_eq] at hframed ⊢
    rw [List.eq_nil_of_length_eq_zero hframed]
    simp only [Source.token, hop]
    exact Takes.nodeData _ id
  | shortString =>
    simp only [hop, decide_eq_true_eq] at hframed ⊢
    simp only [Source.token, hop, ← hframed]
    exact Takes.stringValue payload id
  | name =>
    simp only [hop, decide_eq_true_eq] at hframed ⊢
    simp only [Source.token, hop, ← hframed]
    exact (Takes.readBytes payload id).bind_nil (Takes.pure none id)
  | longString =>
    simp only [hop] at hframed ⊢
    cases payload with
    | nil => cases hframed
    | cons len bytes =>
      simp only [decide_eq_true_eq] at hframed
      simp only [Source.token, hop, List.tail_cons]
      have htext := Takes.stringValue (m := m + 1 + 1) bytes id
      rw [hframed] at htext
      have h := Takes.bind (f := fun len => do
        let v ← Stream.source.readString (len.toNat + 1)
        Stream.source.nodeData (.withString v)) (Takes.readU8 (m := m + 1) len id) htext
      rwa [Bool.true_and] at h
  | index16 =>
    simp only [hop, decide_eq_true_eq] at hframed ⊢
    obtain ⟨a, b, rfl⟩ := length_eq_two hframed
    simp only [Source.token, hop]
    exact (Takes.readU16 a b id).bind_nil (Takes.pure none id)
  | int16 =>
    simp only [hop, decide_eq_true_eq] at hframed ⊢
    obtain ⟨a, b, rfl⟩ := length_eq_two hframed
    simp only [Source.token, hop]
    exact (Takes.readU16 a b id).bind_nil (Takes.nodeData _ id)
  | int32 | float | rawFloat =>
    simp only [hop, decide_eq_true_eq] at hframed ⊢
    obtain ⟨a, b, c, d, rfl⟩ := length_eq_four hframed
    simp only [Source.token, hop]
    exact (Takes.readU32 a b c d id).bind_nil (Takes.nodeData _ id)
  | nodeId =>
    simp only [hop, decide_eq_true_eq] at hframed ⊢
    obtain ⟨a, b, c, d, rfl⟩ := length_eq_four hframed
    simp only [Source.token, hop]
    refine (Takes.readU32 a b c d id).bind_nil ?_
    intro rest n _ hn
    rw [if_pos ⟨hn, rfl⟩]
    rfl
  | step =>
    simp only [hop, decide_eq_true_eq] at hframed ⊢
    obtain ⟨a, rfl⟩ := List.length_eq_one_iff.mp hframed
    simp only [Source.token, hop]
    exact (Takes.readU8 a id).bind_nil (Takes.pure none id)
  | requestEnd | nodeDef | unknown =>
    simp only [hop] at hframed
    cases hframed

end LibWing
