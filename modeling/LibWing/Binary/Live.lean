import LibWing.Binary.Values
import LibWing.Console.Framed
import LibWing.Node.Recode

/-!
# The offline parser and the live reader

`parse_binary_values` and `read` are two loops over one grammar: one over a slice with a cursor, the
other over the bytes of a session as they come.  The meaning of a token is what both make of it.

* `binaryToken_inv` : the offline parser takes a token of a reply and makes of it what it means;
* `ValueBuffer` : a buffer cut into values, the navigation after them and the end token;
* `parseLoop_buffer` : an accepted buffer has such a cut;
* `ValueBuffer.pairs_eq` : what an accepted buffer is parsed to are the values of its cut;
* `parseBinaryValues_live` : reading the escaped form of an accepted buffer.
-/

namespace LibWing

open Stateful
open Session (NodeValue)

/-! ### One token -/

/-- The offline form of a value. -/
def NativeValue.toNode : NativeValue → NodeValue
  | .integer v => .int v
  | .float v | .rawFloat v => .float v
  | .string v => .string v

theorem received_toNode (v : NativeValue) : v.toNode.toNative.received = v.received := by
  cases v <;> rfl

/-- What a token does to the offline parser. -/
def ReplyToken.step (t : ReplyToken) : BinaryStep :=
  match t.value, t.selects with
  | some v, _ => .value v.toNode
  | none, some id => .select id
  | none, none => .skip

theorem Cursor.take_eq_ok {n : ℕ} {rest bytes rest' : List UInt8}
    (h : Cursor.take n rest = .ok (bytes, rest')) : bytes.length = n ∧ rest = bytes ++ rest' := by
  unfold Cursor.take at h
  split_ifs at h with hlen
  cases h
  exact ⟨by rw [List.length_take]; omega, (List.take_append_drop n rest).symm⟩

theorem Cursor.readI32_eq_ok {rest rest' : List UInt8} {v : Int32}
    (h : Cursor.readI32 rest = .ok (v, rest')) :
    ∃ a b c d, rest = [a, b, c, d] ++ rest' ∧ v = i32OfBytes a b c d := by
  unfold Cursor.readI32 at h
  split at h
  · cases h
    exact ⟨_, _, _, _, rfl, rfl⟩
  · cases h

theorem Cursor.readF32_eq_ok {rest rest' : List UInt8} {v : F32}
    (h : Cursor.readF32 rest = .ok (v, rest')) :
    ∃ a b c d, rest = [a, b, c, d] ++ rest' ∧ v = f32OfBytes a b c d := by
  unfold Cursor.readF32 at h
  split at h
  · cases h
    exact ⟨_, _, _, _, rfl, rfl⟩
  · cases h

theorem Cursor.readU16_eq_ok {rest rest' : List UInt8} {v : UInt16}
    (h : Cursor.readU16 rest = .ok (v, rest')) :
    ∃ a b, rest = [a, b] ++ rest' ∧ v = BigEndian.fromBe16 a b := by
  unfold Cursor.readU16 at h
  split at h
  · cases h
    exact ⟨_, _, rfl, rfl⟩
  · cases h

theorem shortString_payload : ∀ cmd : UInt8, Opcode.ofByte cmd = .shortString →
    (cmd - 0x80).toNat + 1 = (cmd - 0x7f).toNat := by
  decide +kernel

theorem name_payload : ∀ cmd : UInt8, Opcode.ofByte cmd = .name →
    (cmd - 0xc0).toNat + 1 = (cmd - 0xbf).toNat := by
  decide +kernel

theorem requestEnd_byte : ∀ cmd : UInt8, Opcode.ofByte cmd = .requestEnd → cmd = 0xde := by
  decide +kernel

/-- **The offline parser takes exactly a token of a reply**, or the end token. -/
theorem binaryToken_inv {cmd : UInt8} {rest rest' : List UInt8} {step : BinaryStep}
    (h : binaryToken cmd rest = .ok (step, rest')) :
    (cmd = 0xde ∧ step = .stop) ∨
      ∃ t : ReplyToken, t.cmd = cmd ∧ rest = t.payload ++ rest' ∧ step = t.step := by
  unfold binaryToken at h
  -- A token with payload `p`.
  have htoken : ∀ (p : List UInt8) (hp : framed cmd p = true), rest = p ++ rest' →
      step = (ReplyToken.mk cmd p hp).step → (cmd = 0xde ∧ step = .stop) ∨
        ∃ t : ReplyToken, t.cmd = cmd ∧ rest = t.payload ++ rest' ∧ step = t.step :=
    fun p hp hrest hstep => Or.inr ⟨⟨cmd, p, hp⟩, rfl, hrest, hstep⟩
  cases hop : Opcode.ofByte cmd with
  | smallInt | emptyString | index | click | root | up | data | definition =>
    simp only [hop] at h
    cases h
    refine htoken [] (by simp only [framed, hop]; decide) rfl ?_
    simp only [ReplyToken.step, ReplyToken.value, ReplyToken.selects, hop]
    try rfl
  | shortString =>
    simp only [hop] at h
    obtain ⟨bytes, rest₁, htake, h⟩ := Cursor.bind_eq_ok.1 h
    cases h
    obtain ⟨hlen, hrest⟩ := Cursor.take_eq_ok htake
    rw [shortString_payload cmd hop] at hlen
    refine htoken bytes (by simp only [framed, hop, decide_eq_true_eq]; exact hlen) hrest ?_
    simp only [ReplyToken.step, ReplyToken.value, hop]
    rfl
  | name =>
    simp only [hop] at h
    obtain ⟨bytes, rest₁, htake, h⟩ := Cursor.bind_eq_ok.1 h
    cases h
    obtain ⟨hlen, hrest⟩ := Cursor.take_eq_ok htake
    rw [name_payload cmd hop] at hlen
    refine htoken bytes (by simp only [framed, hop, decide_eq_true_eq]; exact hlen) hrest ?_
    simp only [ReplyToken.step, ReplyToken.value, ReplyToken.selects, hop]
  | longString =>
    simp only [hop] at h
    obtain ⟨len, rest₁, hlen, h⟩ := Cursor.bind_eq_ok.1 h
    obtain ⟨bytes, rest₂, htake, h⟩ := Cursor.bind_eq_ok.1 h
    cases h
    obtain ⟨hbytes, hrest⟩ := Cursor.take_eq_ok htake
    unfold Cursor.readU8 at hlen
    split at hlen
    · cases hlen
      subst hrest
      refine htoken (_ :: bytes) (by simp only [framed, hop, decide_eq_true_eq]; exact hbytes) rfl
        ?_
      simp only [ReplyToken.step, ReplyToken.value, hop]
      rfl
    · cases hlen
  | index16 | step =>
    simp only [hop] at h
    obtain ⟨bytes, rest₁, htake, h⟩ := Cursor.bind_eq_ok.1 h
    cases h
    obtain ⟨hlen, hrest⟩ := Cursor.take_eq_ok htake
    refine htoken bytes (by simp only [framed, hop, decide_eq_true_eq]; exact hlen) hrest ?_
    simp only [ReplyToken.step, ReplyToken.value, ReplyToken.selects, hop]
  | int16 =>
    simp only [hop] at h
    obtain ⟨v, rest₁, hread, h⟩ := Cursor.bind_eq_ok.1 h
    cases h
    obtain ⟨a, b, hrest, rfl⟩ := Cursor.readU16_eq_ok hread
    refine htoken [a, b] (by simp only [framed, hop]; rfl) hrest ?_
    simp only [ReplyToken.step, ReplyToken.value, hop]
    rfl
  | int32 =>
    simp only [hop] at h
    obtain ⟨v, rest₁, hread, h⟩ := Cursor.bind_eq_ok.1 h
    cases h
    obtain ⟨a, b, c, d, hrest, rfl⟩ := Cursor.readI32_eq_ok hread
    refine htoken [a, b, c, d] (by simp only [framed, hop]; rfl) hrest ?_
    simp only [ReplyToken.step, ReplyToken.value, hop]
    rfl
  | float | rawFloat =>
    simp only [hop] at h
    obtain ⟨v, rest₁, hread, h⟩ := Cursor.bind_eq_ok.1 h
    cases h
    obtain ⟨a, b, c, d, hrest, rfl⟩ := Cursor.readF32_eq_ok hread
    refine htoken [a, b, c, d] (by simp only [framed, hop]; rfl) hrest ?_
    simp only [ReplyToken.step, ReplyToken.value, hop]
    rfl
  | nodeId =>
    simp only [hop] at h
    obtain ⟨v, rest₁, hread, h⟩ := Cursor.bind_eq_ok.1 h
    cases h
    obtain ⟨a, b, c, d, hrest, rfl⟩ := Cursor.readI32_eq_ok hread
    refine htoken [a, b, c, d] (by simp only [framed, hop]; rfl) hrest ?_
    simp only [ReplyToken.step, ReplyToken.value, ReplyToken.selects, hop]
  | requestEnd =>
    simp only [hop] at h
    cases h
    exact Or.inl ⟨requestEnd_byte cmd hop, rfl⟩
  | nodeDef | unknown =>
    simp only [hop] at h
    cases h

theorem framed_unique {cmd : UInt8} {p p' rest rest' : List UInt8} (hp : framed cmd p = true)
    (hp' : framed cmd p' = true) (h : p ++ rest = p' ++ rest') : p = p' ∧ rest = rest' := by
  have hlen : p.length = p'.length := by
    unfold framed at hp hp'
    cases hop : Opcode.ofByte cmd with
    | longString =>
      simp only [hop] at hp hp'
      cases p with
      | nil => cases hp
      | cons len bytes =>
        cases p' with
        | nil => cases hp'
        | cons len' bytes' =>
          -- The first byte is the length of the rest.
          rw [List.cons_append, List.cons_append, List.cons.injEq] at h
          simp only [decide_eq_true_eq] at hp hp'
          rw [List.length_cons, List.length_cons, hp, hp', h.1]
    | requestEnd | nodeDef | unknown =>
      simp only [hop] at hp
      cases hp
    | _ =>
      simp only [hop, decide_eq_true_eq] at hp hp'
      rw [hp, hp']
  exact List.append_inj h hlen

/-- **One pass of the loop** takes the token at the head of the buffer and does what it means. -/
theorem parseLoop_token {fuel : ℕ} {cur : Option Int32} {out pairs : List (Int32 × NodeValue)}
    {t : ReplyToken} {rest : List UInt8}
    (h : parseLoop fuel cur out (t.bytes ++ rest) = .ok pairs) :
    (∀ v, t.value = some v → ∃ id fuel', cur = some id ∧
        parseLoop fuel' cur (out ++ [(id, v.toNode)]) rest = .ok pairs) ∧
      (t.value = none → ∃ fuel', parseLoop fuel' (t.selects.or cur) out rest = .ok pairs) := by
  cases fuel with
  | zero => cases h
  | succ fuel =>
    obtain ⟨⟨step, rest'⟩, htoken, h⟩ := Except.bind_eq_ok.1 h
    rcases binaryToken_inv htoken with ⟨hcmd, rfl⟩ | ⟨t', hcmd, hrest, rfl⟩
    · -- The end token is no token of a reply.
      have hframed := t.framed
      have hop : Opcode.ofByte 0xde = .requestEnd := by decide
      rw [hcmd] at hframed
      simp only [framed, hop] at hframed
      cases hframed
    · obtain ⟨cmd, payload, hframed⟩ := t
      obtain ⟨cmd', payload', hframed'⟩ := t'
      dsimp only at hcmd
      subst hcmd
      obtain ⟨rfl, rfl⟩ := framed_unique hframed hframed' hrest
      unfold ReplyToken.step at h
      refine ⟨fun v hv => ?_, fun hv => ?_⟩
      · simp only [hv] at h
        obtain ⟨id, hcur, h⟩ := Except.bind_eq_ok.1 h
        cases cur with
        | none => cases hcur
        | some id' =>
          cases hcur
          exact ⟨id, fuel, rfl, h⟩
      · simp only [hv] at h
        cases hs : (ReplyToken.mk cmd' payload hframed).selects with
        | none =>
          simp only [hs] at h
          exact ⟨fuel, h⟩
        | some id =>
          simp only [hs] at h
          exact ⟨fuel, h⟩

/-! ### The cut of a buffer -/

/-- The last token is a value. -/
def LastToken.isValue : LastToken → Bool
  | value _ _ => true
  | _ => false

/-- The string of the last token, if it carries one, is UTF-8. -/
def LastToken.isUtf8 : LastToken → Bool
  | value t _ => t.isUtf8
  | _ => true

/-- A buffer cut into its values, the navigation after the last of them, and its end: nothing, or
the end token and whatever follows it. -/
structure ValueBuffer (data : List UInt8) where
  /-- The navigation up to each value, with the value. -/
  values : List WireResponse
  /-- Each of them ends in a value. -/
  isValue : ∀ r ∈ values, r.last.isValue = true
  /-- The navigation behind the last value. -/
  trailing : List ReplyToken
  /-- It carries none. -/
  isQuiet : ∀ t ∈ trailing, t.value = none
  /-- Nothing, or the end token and what follows it. -/
  tail : List UInt8
  /-- That is, nothing else. -/
  isEnd : tail = [] ∨ tail.head? = some 0xde
  /-- The buffer is these one after the other. -/
  eq : data = values.flatMap WireResponse.bytes ++ trailing.flatMap ReplyToken.bytes ++ tail

namespace ValueBuffer

variable {data : List UInt8}

/-- Every string of the buffer is UTF-8. -/
def IsUtf8 (b : ValueBuffer data) : Prop := ∀ r ∈ b.values, r.last.isUtf8 = true

/-- Every response of the buffer is within the reader's limit on one: each value with the navigation
before it, and the end with the navigation before it. -/
def Fits (b : ValueBuffer data) : Prop :=
  (∀ r ∈ b.values, r.bytes.length ≤ maxNativeResponseBytes) ∧
    (b.trailing.flatMap ReplyToken.bytes ++ b.tail.take 1).length ≤ maxNativeResponseBytes

/-- The buffer at its end. -/
def atEnd (tail : List UInt8) (h : tail = [] ∨ tail.head? = some 0xde) : ValueBuffer tail where
  values := []
  isValue := nofun
  trailing := []
  isQuiet := nofun
  tail := tail
  isEnd := h
  eq := rfl

/-- A token in front of the first of some responses. -/
def prepend (t : ReplyToken) (h : t.value = none) : List WireResponse → List WireResponse
  | [] => []
  | r :: rs => ⟨t :: r.quiet, List.forall_mem_cons.2 ⟨h, r.isQuiet⟩, r.last⟩ :: rs

/-- A value in front of a buffer. -/
def consValue (b : ValueBuffer data) (t : ReplyToken) (h : t.value.isSome = true) :
    ValueBuffer (t.bytes ++ data) where
  values := ⟨[], nofun, .value t h⟩ :: b.values
  isValue := List.forall_mem_cons.2 ⟨rfl, b.isValue⟩
  trailing := b.trailing
  isQuiet := b.isQuiet
  tail := b.tail
  isEnd := b.isEnd
  eq := by
    conv_lhs => rw [b.eq]
    simp only [List.flatMap_cons, WireResponse.bytes, LastToken.bytes, List.flatMap_nil,
      List.nil_append, List.append_assoc]

/-- Navigation in front of a buffer belongs to its first value, or to its end. -/
def consQuiet (b : ValueBuffer data) (t : ReplyToken) (h : t.value = none) :
    ValueBuffer (t.bytes ++ data) where
  values := prepend t h b.values
  isValue := by
    have hall := b.isValue
    cases hv : b.values with
    | nil => nofun
    | cons r rs =>
      rw [hv] at hall
      exact List.forall_mem_cons.2 (List.forall_mem_cons.1 hall)
  trailing := if b.values = [] then t :: b.trailing else b.trailing
  isQuiet := by
    split_ifs
    · exact List.forall_mem_cons.2 ⟨h, b.isQuiet⟩
    · exact b.isQuiet
  tail := b.tail
  isEnd := b.isEnd
  eq := by
    conv_lhs => rw [b.eq]
    cases b.values with
    | nil => simp only [prepend, ↓reduceIte, List.flatMap_nil, List.nil_append, List.flatMap_cons,
        List.append_assoc]
    | cons r rs => simp only [prepend, reduceCtorEq, ↓reduceIte, List.flatMap_cons,
        WireResponse.bytes, List.append_assoc]

end ValueBuffer

/-- **An accepted buffer has a cut.**  The induction is on the passes of the loop, one token
each. -/
theorem parseLoop_buffer {fuel : ℕ} {cur : Option Int32} {out pairs : List (Int32 × NodeValue)}
    {data : List UInt8} (h : parseLoop fuel cur out data = .ok pairs) :
    Nonempty (ValueBuffer data) := by
  induction fuel generalizing cur out data with
  | zero =>
    cases data with
    | nil => exact ⟨.atEnd [] (Or.inl rfl)⟩
    | cons cmd rest => cases h
  | succ fuel ih =>
    cases data with
    | nil => exact ⟨.atEnd [] (Or.inl rfl)⟩
    | cons cmd rest =>
      obtain ⟨⟨step, rest'⟩, htoken, h⟩ := Except.bind_eq_ok.1 h
      rcases binaryToken_inv htoken with ⟨rfl, rfl⟩ | ⟨t, rfl, rfl, rfl⟩
      · exact ⟨.atEnd (0xde :: rest) (Or.inr rfl)⟩
      · unfold ReplyToken.step at h
        cases hv : t.value with
        | some v =>
          simp only [hv] at h
          obtain ⟨id, -, h⟩ := Except.bind_eq_ok.1 h
          obtain ⟨b⟩ := ih h
          exact ⟨b.consValue t (by rw [hv]; rfl)⟩
        | none =>
          cases hs : t.selects with
          | some id =>
            simp only [hv, hs] at h
            obtain ⟨b⟩ := ih h
            exact ⟨b.consQuiet t hv⟩
          | none =>
            simp only [hv, hs] at h
            obtain ⟨b⟩ := ih h
            exact ⟨b.consQuiet t hv⟩

/-! ### The pairs of a buffer -/

/-- The offline parser and the reader have the same current node, if the parser has one. -/
def SameNode (cur : Option Int32) (id : Int32) : Prop := ∀ i ∈ cur, i = id

theorem SameNode.token {cur : Option Int32} {id : Int32} (h : SameNode cur id) (t : ReplyToken) :
    SameNode (t.selects.or cur) (t.nodeId id) := by
  intro i hi
  unfold ReplyToken.nodeId
  cases hs : t.selects with
  | none =>
    rw [hs] at hi
    exact h i hi
  | some selected =>
    rw [hs] at hi
    exact (Option.some.inj hi).symm

theorem parseLoop_quiet {quiet : List ReplyToken} (hquiet : ∀ t ∈ quiet, t.value = none) {fuel : ℕ}
    {cur : Option Int32} {id : Int32} (hcur : SameNode cur id)
    {out pairs : List (Int32 × NodeValue)} {rest : List UInt8}
    (h : parseLoop fuel cur out (quiet.flatMap ReplyToken.bytes ++ rest) = .ok pairs) :
    ∃ fuel' cur', SameNode cur' (nodeIdAfter id quiet) ∧ parseLoop fuel' cur' out rest =
      .ok pairs := by
  induction quiet generalizing fuel cur id with
  | nil => exact ⟨fuel, cur, hcur, h⟩
  | cons t quiet ih =>
    obtain ⟨ht, hquiet⟩ := List.forall_mem_cons.1 hquiet
    rw [List.flatMap_cons, List.append_assoc] at h
    obtain ⟨fuel', h⟩ := (parseLoop_token h).2 ht
    exact ih hquiet (hcur.token t) h

theorem parseLoop_values {rs : List WireResponse} (hvalue : ∀ r ∈ rs, r.last.isValue = true)
    (hutf8 : ∀ r ∈ rs, r.last.isUtf8 = true) {fuel : ℕ} {cur : Option Int32} {id : Int32}
    (hcur : SameNode cur id) {out pairs : List (Int32 × NodeValue)} {rest : List UInt8}
    (h : parseLoop fuel cur out (rs.flatMap WireResponse.bytes ++ rest) = .ok pairs) :
    ∃ fuel' cur' new, outcomes id rs =
      new.map (fun p => .ok (.nodeData p.1 p.2.toNative.received)) ∧
      SameNode cur' (lastNodeId id rs) ∧ parseLoop fuel' cur' (out ++ new) rest = .ok pairs := by
  induction rs generalizing fuel cur id out with
  | nil => exact ⟨fuel, cur, [], rfl, hcur, by rw [List.append_nil]; exact h⟩
  | cons r rs ih =>
    obtain ⟨hv, hvalues⟩ := List.forall_mem_cons.1 hvalue
    obtain ⟨hu, hutf8s⟩ := List.forall_mem_cons.1 hutf8
    obtain ⟨quiet, isQuiet, last⟩ := r
    cases last with
    | requestEnd | nodeDef d => cases hv
    | value t ht =>
      rw [List.flatMap_cons, WireResponse.bytes, List.append_assoc, List.append_assoc] at h
      obtain ⟨fuel₁, cur₁, hcur₁, h⟩ := parseLoop_quiet isQuiet hcur h
      obtain ⟨v, hsome⟩ := Option.isSome_iff_exists.1 ht
      obtain ⟨i, fuel₂, rfl, h⟩ := (parseLoop_token h).1 v hsome
      cases hcur₁ i rfl
      obtain ⟨fuel₃, cur₃, new, hnew, hcur₃, h⟩ := ih hvalues hutf8s hcur₁ h
      refine ⟨fuel₃, cur₃, (nodeIdAfter id quiet, v.toNode) :: new, ?_, hcur₃, ?_⟩
      · have ht' : t.isUtf8 = true := hu
        have hfirst : (WireResponse.mk quiet isQuiet (.value t ht)).outcome id =
            .ok (.nodeData (nodeIdAfter id quiet) v.received) := by
          change LastToken.outcome (nodeIdAfter id quiet) (.value t ht) = _
          rw [LastToken.outcome, if_pos ht']
          simp only [hsome, Option.get_some]
        rw [outcomes, hfirst, List.map_cons, received_toNode, ← hnew]
        rfl
      · rw [List.append_assoc] at h
        exact h

/-- **What an accepted buffer is parsed to are the values of its cut**, as the reader sees them. -/
theorem ValueBuffer.pairs_eq {data : List UInt8} (b : ValueBuffer data) (hutf8 : b.IsUtf8)
    {pairs : List (Int32 × NodeValue)} (h : parseBinaryValues data = .ok pairs) :
    outcomes 0 b.values = pairs.map fun p => .ok (.nodeData p.1 p.2.toNative.received) := by
  obtain ⟨values, isValue, trailing, isQuiet, tail, isEnd, rfl⟩ := b
  rw [parseBinaryValues, List.append_assoc] at h
  have hcur : SameNode none 0 := by
    intro i hi
    cases hi
  obtain ⟨fuel₁, cur₁, new, hnew, hcur₁, h⟩ := parseLoop_values isValue hutf8 hcur h
  obtain ⟨fuel₂, cur₂, -, h⟩ := parseLoop_quiet isQuiet hcur₁ h
  rw [List.nil_append] at h
  have hend : pairs = new := by
    rcases isEnd with rfl | hhead
    · unfold parseLoop at h
      cases fuel₂ <;> exact (Except.ok.inj h).symm
    · obtain ⟨rest, rfl⟩ := List.head?_eq_some_iff.1 hhead
      cases fuel₂ with
      | zero => cases h
      | succ fuel => exact (Except.ok.inj h).symm
  rw [hend]
  exact hnew

/-! ### Reading a buffer -/

theorem read_trailing {quiet : List ReplyToken} (h : ∀ t ∈ quiet, t.value = none)
    (hfits : (quiet.flatMap ReplyToken.bytes).length ≤ maxNativeResponseBytes) (id : Int32) :
    outcome Stream.read ⟨(quiet.flatMap ReplyToken.bytes).map audioSymbol, id, 0⟩ =
      (.error .connectionError, ⟨[], nodeIdAfter id quiet, 0⟩) := by
  have hlen := length_le_flatMap_bytes quiet
  obtain ⟨fuel, hfuel⟩ := Nat.exists_eq_add_of_lt
    (show quiet.length < maxNativeResponseBytes + 1 by omega)
  have hpass := readInner_quiet h (fuel + 1) id [] 0 (by omega)
  rw [List.append_nil, ← Nat.add_assoc, ← hfuel] at hpass
  have hend : ∀ n, outcome (Stream.source.readInner (fuel + 1)) ⟨[], nodeIdAfter id quiet, n⟩ =
      (.error .connectionError, ⟨[], nodeIdAfter id quiet, n⟩) := fun _ => rfl
  exact Stream.outcome_read (s := ⟨(quiet.flatMap ReplyToken.bytes).map audioSymbol, id, 0⟩)
    (hpass.trans (hend _))

theorem reads_trailing {quiet : List ReplyToken} (h : ∀ t ∈ quiet, t.value = none)
    (hfits : (quiet.flatMap ReplyToken.bytes).length ≤ maxNativeResponseBytes)
    (id : Int32) (k : ℕ) :
    (Stream.reads k ⟨(quiet.flatMap ReplyToken.bytes).map audioSymbol, id, 0⟩).1 =
      List.replicate k (.error .connectionError) := by
  cases k with
  | zero => rfl
  | succ k =>
    rw [Stream.reads, read_trailing h hfits id]
    change Except.error Error.connectionError ::
      (Stream.reads k ⟨[], nodeIdAfter id quiet, 0⟩).1 = _
    rw [reads_nil, List.replicate_succ]

/-- What reading a buffer gives: its pairs, and the end of the reply if the buffer has an end
token. -/
def ValueBuffer.expected {data : List UInt8} (b : ValueBuffer data)
    (pairs : List (Int32 × NodeValue)) : List (Result WingResponse) :=
  pairs.map (fun p => .ok (.nodeData p.1 p.2.toNative.received)) ++
    if b.tail = [] then [] else [.ok .requestEnd]

theorem outcomes_append (id : Int32) (rs rs' : List WireResponse) :
    outcomes id (rs ++ rs') = outcomes id rs ++ outcomes (lastNodeId id rs) rs' := by
  induction rs generalizing id with
  | nil => rfl
  | cons r rs ih =>
    simp only [List.cons_append, outcomes, ih]
    rfl

namespace Console

theorem runCalls_trailing {rs : List WireResponse} {trailing : List ReplyToken}
    (hfits : ∀ r ∈ rs, r.bytes.length ≤ maxNativeResponseBytes)
    (hquiet : ∀ t ∈ trailing, t.value = none)
    (hfit : (trailing.flatMap ReplyToken.bytes).length ≤ maxNativeResponseBytes)
    {w : World} (hw : w.Calm) (now : Time) {rsock : List Poll}
    (hsock : rawSymbols rsock = (escapeBytes (rs.flatMap WireResponse.bytes ++
      trailing.flatMap ReplyToken.bytes)).map .ok) (k : ℕ) :
    (runCalls w (List.replicate (rs.length + k) .read) (new now rsock)).1 =
      outcomes 0 rs ++ List.replicate k (.error .connectionError) := by
  rcases hrun : runCalls w (List.replicate (rs.length + k) .read) (new now rsock) with ⟨l, c⟩
  obtain ⟨hreads, -⟩ := runCalls_reads hw _ (idle_new now rsock) hrun
  obtain ⟨hall, hcount⟩ := runCalls_plain hw _ (idle_new now rsock) hrun
  have hdecode := decodeSymbols_escapeBytes
    (rs.flatMap WireResponse.bytes ++ trailing.flatMap ReplyToken.bytes) []
  rw [List.append_nil, decodeSymbols, List.append_nil, List.map_append] at hdecode
  rw [hall, hcount, stream_new, hsock, hdecode, reads_framed hfits] at hreads
  rw [← (Prod.mk.inj hreads).1, reads_trailing hquiet hfit]

/-- **The offline parser agrees with the live reader.**  A buffer that `parse_binary_values` accepts
has a cut into values.  If its strings are UTF-8 and none of its responses is longer than the reader
lets one be, then reading the escaped form of the buffer, however the transport cuts it and whatever
follows, gives the pairs in order and then the end of the reply, if the buffer has an end token.  If
it has none and nothing follows, the pairs are followed by the end of the stream. -/
theorem parseBinaryValues_live {data : List UInt8} {pairs : List (Int32 × NodeValue)}
    (h : parseBinaryValues data = .ok pairs) :
    Nonempty (ValueBuffer data) ∧ ∀ b : ValueBuffer data, b.IsUtf8 → b.Fits →
      ∀ (w : World) (_ : w.Calm) (now : Time) (rsock : List Poll)
        (more : List (Except Error UInt8)),
        rawSymbols rsock = (escapeBytes data).map .ok ++ more →
        (runCalls w (List.replicate (b.expected pairs).length .read) (new now rsock)).1 =
            b.expected pairs ∧
          (b.tail = [] → more = [] → ∀ k,
            (runCalls w (List.replicate ((b.expected pairs).length + k) .read) (new now rsock)).1 =
              b.expected pairs ++ List.replicate k (.error .connectionError)) := by
  refine ⟨parseLoop_buffer h, fun b hutf8 hfits w hw now rsock more hsock => ?_⟩
  have hpairs := b.pairs_eq hutf8 h
  obtain ⟨values, isValue, trailing, isQuiet, tail, isEnd, rfl⟩ := b
  obtain ⟨hvalues, hlast⟩ := hfits
  rw [escapeBytes_append, escapeBytes_append] at hsock
  rcases isEnd with rfl | hhead
  · -- The buffer ends without an end token.
    have hexp : pairs.map (fun p => .ok (.nodeData p.1 p.2.toNative.received)) ++ [] =
        outcomes 0 values := (List.append_nil _).trans hpairs.symm
    simp only [ValueBuffer.expected, ↓reduceIte, hexp, length_outcomes]
    refine ⟨?_, fun _ hmore k => ?_⟩
    · refine (runCalls_framed values hvalues w hw now rsock
        ((escapeBytes (trailing.flatMap ReplyToken.bytes)).map .ok ++ more) ?_ []).2
      rw [hsock]
      simp only [escapeBytes_nil, List.append_nil, List.map_append, List.append_assoc]
    · refine runCalls_trailing hvalues isQuiet ?_ hw now ?_ k
      · rw [List.length_append] at hlast
        exact (Nat.le_add_right _ _).trans hlast
      · rw [hsock, hmore, escapeBytes_append]
        simp only [escapeBytes_nil, List.append_nil]
  · -- The navigation before the end token and the token are one more response.
    obtain ⟨rest, rfl⟩ := List.head?_eq_some_iff.1 hhead
    let last : WireResponse := ⟨trailing, isQuiet, .requestEnd⟩
    have hexp : pairs.map (fun p => .ok (.nodeData p.1 p.2.toNative.received)) ++
      [.ok .requestEnd] =
        outcomes 0 (values ++ [last]) := by
      rw [outcomes_append, hpairs]
      rfl
    have hfits : ∀ r ∈ values ++ [last], r.bytes.length ≤ maxNativeResponseBytes := by
      intro r hr
      rcases List.mem_append.1 hr with hr | hr
      · exact hvalues r hr
      · cases List.mem_singleton.1 hr
        exact hlast
    simp only [ValueBuffer.expected, reduceCtorEq, ↓reduceIte, hexp, length_outcomes]
    refine ⟨(runCalls_framed (values ++ [last]) hfits w hw now rsock
      ((escapeBytes rest).map .ok ++ more) ?_ []).2, nofun⟩
    have hend : escapeBytes (0xde :: rest) = escapeBytes [0xde] ++ escapeBytes rest :=
      escapeBytes_append [0xde] rest
    have hbytes : (values ++ [last]).flatMap WireResponse.bytes =
        values.flatMap WireResponse.bytes ++ (trailing.flatMap ReplyToken.bytes ++ [0xde]) := by
      rw [List.flatMap_append, List.flatMap_singleton]
      rfl
    rw [hsock, hbytes, hend]
    simp only [escapeBytes_append, List.map_append, List.append_assoc]

/-- Two values, a click between them and the end token after them. -/
theorem parseBinaryValues_live_click :
    (runCalls .steady (List.replicate 3 .read)
      (new 0 [.read (.ok [0xd7, 0, 0, 0, 0xdf]), .read (.ok [0xde, 5, 0xd8, 6, 0xde])])).1 =
        [.ok (.nodeData 0xdf (.withI32 5)), .ok (.nodeData 0xdf (.withI32 6)),
          .ok .requestEnd] := by
  let data : List UInt8 := [0xd7, 0, 0, 0, 0xdf, 5, 0xd8, 6, 0xde]
  have hparse : parseBinaryValues data = .ok [(0xdf, .int 5), (0xdf, .int 6)] := by decide +kernel
  let b : ValueBuffer data :=
    { values := [⟨[⟨0xd7, [0, 0, 0, 0xdf], by decide⟩],
      by decide, .value ⟨5, [], by decide⟩ (by decide)⟩,
        ⟨[⟨0xd8, [], by decide⟩], by decide, .value ⟨6, [], by decide⟩ (by decide)⟩]
      isValue := by decide
      trailing := []
      isQuiet := nofun
      tail := [0xde]
      isEnd := Or.inr rfl
      eq := rfl }
  have hutf8 : b.IsUtf8 := by
    change ∀ r ∈ b.values, r.last.isUtf8 = true
    decide
  have hfits : b.Fits := by
    refine ⟨?_, by decide⟩
    intro r hr
    simp only [b, List.mem_cons, List.not_mem_nil, or_false] at hr
    rcases hr with rfl | rfl <;> decide
  exact ((parseBinaryValues_live hparse).2 b hutf8 hfits .steady World.steady_calm 0
    [.read (.ok [0xd7, 0, 0, 0, 0xdf]), .read (.ok [0xde, 5, 0xd8, 6, 0xde])] []
    (by decide +kernel)).1

/-! ### A response that is too long -/

/-- Clicks are passed over by the offline parser, however many there are. -/
theorem parseLoop_clicks (n fuel : ℕ) (cur : Option Int32) (out : List (Int32 × NodeValue))
    (rest : List UInt8) :
    parseLoop (n + fuel) cur out (List.replicate n 0xd8 ++ rest) = parseLoop fuel cur out rest := by
  induction n with
  | zero =>
    rw [Nat.zero_add]
    rfl
  | succ n ih =>
    have hclick : binaryToken 0xd8 (List.replicate n 0xd8 ++ rest) =
        .ok (.skip, List.replicate n 0xd8 ++ rest) := rfl
    rw [List.replicate_succ, List.cons_append, Nat.add_right_comm, parseLoop, hclick]
    exact ih

/-- A node selector and `n` clicks. -/
def clicks (n : ℕ) : List ReplyToken :=
  ⟨0xd7, i32Bytes 7, by decide⟩ :: List.replicate n ⟨0xd8, [], by decide⟩

theorem clicks_bytes (n : ℕ) :
    (clicks n).flatMap ReplyToken.bytes = 0xd7 :: i32Bytes 7 ++ List.replicate n 0xd8 := by
  have hrep : (List.replicate n (ReplyToken.mk 0xd8 [] (by decide))).flatMap ReplyToken.bytes =
      List.replicate n 0xd8 := by
    induction n with
    | zero => rfl
    | succ n ih =>
      rw [List.replicate_succ, List.flatMap_cons, ih]
      rfl
  rw [clicks, List.flatMap_cons, hrep]
  rfl

theorem clicks_quiet (n : ℕ) : ∀ t ∈ clicks n, t.value = none := by
  refine List.forall_mem_cons.2 ⟨by decide, fun t ht => ?_⟩
  rw [List.eq_of_mem_replicate ht]
  decide

theorem readInner_full (fuel : ℕ) (decoded : Decoded) (rest : List (Except Error Decoded))
    (id : Int32) :
    outcome (Stream.source.readInner (fuel + 1)) ⟨.ok decoded :: rest, id, maxNativeResponseBytes⟩ =
      (.error .invalidData, ⟨rest, id, maxNativeResponseBytes⟩) := by
  have hnext : outcome Stream.next ⟨.ok decoded :: rest, id, maxNativeResponseBytes⟩ =
      (.error .invalidData, ⟨rest, id, maxNativeResponseBytes⟩) := by
    simp only [outcome, Stream.next, ge_iff_le, le_refl, ↓reduceIte]
  exact outcome_bind_error (outcome_bind_error hnext)

/-- A value behind a node selector and `n` clicks, and the end token. -/
def clickBuffer (n : ℕ) : List UInt8 := (clicks n).flatMap ReplyToken.bytes ++ [5, 0xde]

theorem parse_clickBuffer (n : ℕ) : parseBinaryValues (clickBuffer n) = .ok [(7, .int 5)] := by
  have hselect := binaryToken_nodeId 7 (List.replicate n 0xd8 ++ [5, 0xde])
  have hlen : (0xd7 :: i32Bytes 7 ++ List.replicate n 0xd8 ++ [5, 0xde]).length = n + 6 + 1 := by
    simp only [List.cons_append, List.length_cons, List.length_append, length_i32Bytes,
      List.length_replicate, List.length_nil]
    omega
  rw [clickBuffer, clicks_bytes, parseBinaryValues, hlen, List.cons_append, List.cons_append,
    List.append_assoc, parseLoop, hselect]
  change parseLoop (n + 6) (some 7) [] (List.replicate n 0xd8 ++ [5, 0xde]) = _
  rw [parseLoop_clicks]
  rfl

/-- The cut of the buffer. -/
def clickCut (n : ℕ) : ValueBuffer (clickBuffer n) where
  values := [⟨clicks n, clicks_quiet n, .value ⟨5, [], by decide⟩ (by decide)⟩]
  isValue := List.forall_mem_singleton.2 rfl
  trailing := []
  isQuiet := nofun
  tail := [0xde]
  isEnd := Or.inr rfl
  eq := by
    simp only [clickBuffer, List.flatMap_singleton, WireResponse.bytes, List.flatMap_nil,
      List.append_nil, List.append_assoc]
    rfl

theorem read_clickBuffer {n : ℕ} (hn : n + 5 = maxNativeResponseBytes) :
    outcome Stream.read ⟨(clickBuffer n).map audioSymbol, 0, 0⟩ =
      (.error .invalidData, ⟨[audioSymbol 0xde], 7, 0⟩) := by
  have hlen : ((clicks n).flatMap ReplyToken.bytes).length = maxNativeResponseBytes := by
    rw [clicks_bytes, ← hn]
    simp only [List.cons_append, List.length_cons, List.length_append, length_i32Bytes,
      List.length_replicate]
    omega
  have hcount : (clicks n).length + 5 = maxNativeResponseBytes + 1 := by
    rw [clicks, List.length_cons, List.length_replicate]
    omega
  have hpass := readInner_quiet (clicks_quiet n) 5 0 [audioSymbol 5, audioSymbol 0xde] 0
    (by rw [hlen, Nat.zero_add])
  have hid : nodeIdAfter 0 (clicks n) = 7 := by
    have hrest : ∀ k : ℕ, nodeIdAfter 7 (List.replicate k ⟨0xd8, [], by decide⟩) = 7 := by
      intro k
      induction k with
      | zero => rfl
      | succ k ih => exact ih
    exact hrest n
  rw [hcount, hlen, Nat.zero_add, hid] at hpass
  have hread := hpass.trans (readInner_full 4 (1, 5) [audioSymbol 0xde] 7)
  rw [clickBuffer, List.map_append]
  exact Stream.outcome_read (s := ⟨((clicks n).flatMap ReplyToken.bytes).map audioSymbol ++
    [audioSymbol 5, audioSymbol 0xde], 0, 0⟩) hread

theorem live_clickBuffer {n : ℕ} (hn : n + 5 = maxNativeResponseBytes) :
    (runCalls .steady [.read] (new 0 [.read (.ok (escapeBytes (clickBuffer n)))])).1 =
      [.error .invalidData] := by
  have hne : escapeBytes (clickBuffer n) ≠ [] := by
    rw [clickBuffer, clicks_bytes]
    simp only [List.cons_append, escapeBytes]
    split_ifs
    · exact List.cons_ne_nil _ _
    · exact List.cons_ne_nil _ _
  have hsock : rawSymbols [.read (.ok (escapeBytes (clickBuffer n)))] =
      (escapeBytes (clickBuffer n)).map .ok ++ [] := by
    obtain ⟨byte, bytes, hcons⟩ := List.exists_cons_of_ne_nil hne
    rw [hcons]
    rfl
  rcases hrun : runCalls .steady [.read]
    (new 0 [.read (.ok (escapeBytes (clickBuffer n)))]) with ⟨l, c⟩
  obtain ⟨hreads, -⟩ := runCalls_reads World.steady_calm _ (idle_new 0 _) hrun
  obtain ⟨hall, hcount⟩ := runCalls_plain (n := 1) World.steady_calm (idle_new 0 _) hrun
  rw [hall, hcount, stream_new, hsock, decodeSymbols_escapeBytes] at hreads
  change Stream.reads 1 ⟨(clickBuffer n).map audioSymbol ++ [], 0, 0⟩ = (l, c.stream) at hreads
  rw [List.append_nil, Stream.reads, read_clickBuffer hn] at hreads
  exact (Prod.mk.inj hreads).1.symm

/-- **A value behind sixteen mebibytes of clicks** is a pair for the offline parser, which has no
limit, and part of too long a response for the reader. -/
theorem live_clicks_invalidData :
    parseBinaryValues (clickBuffer (maxNativeResponseBytes - 5)) = .ok [(7, .int 5)] ∧
      (∃ b : ValueBuffer (clickBuffer (maxNativeResponseBytes - 5)), b.IsUtf8) ∧
      (runCalls .steady [.read]
        (new 0 [.read (.ok (escapeBytes (clickBuffer (maxNativeResponseBytes - 5))))])).1 =
          [.error .invalidData] :=
  ⟨parse_clickBuffer _, ⟨clickCut _, List.forall_mem_singleton.2 (by decide)⟩,
    live_clickBuffer (by decide)⟩

end Console

end LibWing
