import LibWing.Session.Bulk
import LibWing.Node.Codec

/-!
# Value buffers

A value buffer is the de-escaped token stream of a reply to a data request.  `parse_binary_values`
reads it offline into pairs of a node and its value, and `encode_binary_values` writes such a buffer
for `set_binary_node`.

* `binaryToken` : one token of the buffer, what it does and what it takes;
* `parseBinaryValues` : the loop over the tokens, up to the end token;
* `encodeBinaryValues` : the writer, which leaves out the strings no token can carry;
* `parseBinaryValues_encodeBinaryValues` : reading back what was written.
-/

namespace LibWing

open Session (NodeValue)

/-- `str_from`. -/
def strFrom (bytes : List UInt8) : String := fromUtf8Lossy bytes

/-- What a token does to the parser. -/
inductive BinaryStep where
  /-- The current node has this value. -/
  | value (v : NodeValue)
  /-- This node is now the current one. -/
  | select (id : Int32)
  /-- Navigation, click, step or request. -/
  | skip
  /-- The end of the data. -/
  | stop
  deriving DecidableEq, Repr

/-- The token that begins with `cmd`. -/
def binaryToken (cmd : UInt8) : Cursor BinaryStep :=
  match Opcode.ofByte cmd with
  | .smallInt => return .value (.int cmd.toUInt32.toInt32)
  | .index => return .skip
  | .shortString => do
    let bytes ← Cursor.take ((cmd - 0x80).toNat + 1)
    return .value (.string (strFrom bytes))
  | .name => do
    let _ ← Cursor.take ((cmd - 0xc0).toNat + 1)
    return .skip
  | .emptyString => return .value (.string "")
  | .longString => do
    let len ← Cursor.readU8
    let bytes ← Cursor.take (len.toNat + 1)
    return .value (.string (strFrom bytes))
  | .index16 => do
    let _ ← Cursor.take 2
    return .skip
  | .int16 => do
    let v ← Cursor.readU16
    return .value (.int v.toInt16.toInt32)
  | .int32 => do
    let v ← Cursor.readI32
    return .value (.int v)
  | .float | .rawFloat => do
    let v ← Cursor.readF32
    return .value (.float v)
  | .nodeId => do
    let id ← Cursor.readI32
    return .select id
  | .step => do
    let _ ← Cursor.take 1
    return .skip
  | .click | .root | .up | .data | .definition => return .skip
  | .requestEnd => return .stop
  -- A definition means that this is no value buffer.
  | .nodeDef | .unknown => throw .invalidData

/-- The loop of `parse_binary_values`, at most `fuel` passes: `cur` is the current node and `out`
the pairs so far. -/
def parseLoop : ℕ → Option Int32 → List (Int32 × NodeValue) → List UInt8 →
    Result (List (Int32 × NodeValue))
  | _, _, out, [] => .ok out
  | 0, _, _, _ => .error .invalidData
  | fuel + 1, cur, out, cmd :: rest => do
    let (step, rest) ← binaryToken cmd rest
    match step with
    | .value v => do
      let id ← cur.elim (.error .invalidData) .ok
      parseLoop fuel cur (out ++ [(id, v)]) rest
    | .select id => parseLoop fuel (some id) out rest
    | .skip => parseLoop fuel cur out rest
    | .stop => .ok out

/-- `parse_binary_values`.  Every pass takes a byte, so the fuel is not used up. -/
def parseBinaryValues (data : List UInt8) : Result (List (Int32 × NodeValue)) :=
  parseLoop data.length none [] data

/-- The loop of `encode_binary_values`: a value that has no token is left out. -/
def encodePairs : List (Int32 × NodeValue) → List UInt8
  | [] => []
  | (id, value) :: pairs =>
    match encodeValue value.toNative with
    | .error _ => encodePairs pairs
    | .ok token => 0xd7 :: i32Bytes id ++ token ++ encodePairs pairs

/-- `encode_binary_values`. -/
def encodeBinaryValues (pairs : List (Int32 × NodeValue)) : List UInt8 :=
  encodePairs pairs ++ [0xde]

/-! ### Reading a token back -/

theorem Cursor.take_append {bytes : List UInt8} {n : ℕ} (h : bytes.length = n) (rest : List UInt8) :
    Cursor.take n (bytes ++ rest) = .ok (bytes, rest) := by
  have hlen : ¬ (bytes ++ rest).length < n := by
    rw [List.length_append]
    omega
  rw [Cursor.take, if_neg hlen, List.take_left' h, List.drop_left' h]

/-- The node selector. -/
theorem binaryToken_nodeId (id : Int32) (rest : List UInt8) :
    binaryToken 0xd7 (i32Bytes id ++ rest) = .ok (.select id, rest) := by
  have hop : Opcode.ofByte 0xd7 = .nodeId := by decide
  simp only [binaryToken, hop]
  exact Cursor.bind_ok (Cursor.readI32_append id rest)

theorem take_strFrom {n : ℕ} (s : String) (h : (utf8 s).length = n) (rest : List UInt8) :
    ((do
      let bytes ← Cursor.take n
      return .value (.string (strFrom bytes)) : Cursor BinaryStep) (utf8 s ++ rest)) =
      .ok (.value (.string s), rest) := by
  rw [Cursor.bind_ok (Cursor.take_append h rest)]
  exact congrArg (fun v => Except.ok (BinaryStep.value (.string v), rest)) (fromUtf8Lossy_utf8 s)

/-- **The token of a value** reads back as the value. -/
theorem binaryToken_value {value : NodeValue} {token : List UInt8}
    (h : encodeValue value.toNative = .ok token) (rest : List UInt8) :
    ∃ cmd payload, token = cmd :: payload ∧
      binaryToken cmd (payload ++ rest) = .ok (.value value, rest) := by
  cases value with
  | int v =>
    simp only [NodeValue.toNative, encodeValue] at h
    split_ifs at h with hsmall h16
    · cases h
      obtain ⟨hop, hv⟩ := smallInt_byte hsmall.1 hsmall.2
      refine ⟨_, [], rfl, ?_⟩
      simp only [binaryToken, hop, hv]
      rfl
    · cases h
      have hop : Opcode.ofByte 0xd3 = .int16 := by decide
      refine ⟨0xd3, i16Bytes v, rfl, ?_⟩
      simp only [binaryToken, hop]
      have hv : (BigEndian.fromBe16 (v.toInt16.toUInt16 >>> 8).toUInt8
          v.toInt16.toUInt16.toUInt8).toInt16.toInt32 = v := by
        rw [BigEndian.fromBe16_toBe16, Int16.toInt16_toUInt16, toInt16_toInt32 h16.1 h16.2]
      exact congrArg (fun v => Except.ok (BinaryStep.value (.int v), rest)) hv
    · cases h
      have hop : Opcode.ofByte 0xd4 = .int32 := by decide
      refine ⟨0xd4, i32Bytes v, rfl, ?_⟩
      simp only [binaryToken, hop]
      exact Cursor.bind_ok (Cursor.readI32_append v rest)
  | float v =>
    cases h
    have hop : Opcode.ofByte 0xd5 = .float := by decide
    refine ⟨0xd5, f32Bytes v, rfl, ?_⟩
    simp only [binaryToken, hop]
    have hv : BigEndian.fromBe32 (v.bits >>> 24).toUInt8 (v.bits >>> 16).toUInt8
        (v.bits >>> 8).toUInt8 v.bits.toUInt8 = v.bits := BigEndian.fromBe32_toBe32 _
    exact congrArg (fun v => Except.ok (BinaryStep.value (.float ⟨v⟩), rest)) hv
  | string s =>
    simp only [NodeValue.toNative, encodeValue] at h
    split_ifs at h with h₀ h₁ h₂
    · cases h
      have hop : Opcode.ofByte 0xd0 = .emptyString := by decide
      refine ⟨0xd0, [], rfl, ?_⟩
      simp only [binaryToken, hop, utf8_eq_nil (List.length_eq_zero_iff.1 h₀)]
      rfl
    · cases h
      obtain ⟨hop, -⟩ := shortString_byte h₀ h₁
      refine ⟨_, utf8 s, rfl, ?_⟩
      simp only [binaryToken, hop]
      exact take_strFrom s (shortString_length h₀ h₁).symm rest
    · cases h
      have hop : Opcode.ofByte 0xd1 = .longString := by decide
      refine ⟨0xd1, UInt8.ofNat ((utf8 s).length - 1) :: utf8 s, rfl, ?_⟩
      simp only [binaryToken, hop]
      exact take_strFrom s (longString_byte h₀ h₂).symm rest

/-! ### Reading a buffer back -/

theorem parseLoop_pair {value : NodeValue} {token : List UInt8}
    (h : encodeValue value.toNative = .ok token) (fuel : ℕ) (cur : Option Int32)
    (out : List (Int32 × NodeValue)) (id : Int32) (rest : List UInt8) :
    parseLoop (fuel + 2) cur out (0xd7 :: i32Bytes id ++ token ++ rest) =
      parseLoop fuel (some id) (out ++ [(id, value)]) rest := by
  obtain ⟨cmd, payload, rfl, htoken⟩ := binaryToken_value h rest
  rw [List.append_assoc, List.cons_append, parseLoop, binaryToken_nodeId]
  change parseLoop (fuel + 1) (some id) out (cmd :: (payload ++ rest)) = _
  rw [parseLoop, htoken]
  rfl

/-- The values a token can carry. -/
def carried : NodeValue → Bool
  | .string s => (utf8 s).length ≤ 256
  | _ => true

theorem encodeValue_toNative (value : NodeValue) :
    (∃ token, encodeValue value.toNative = .ok token) ↔ carried value = true := by
  rw [encodeValue_isOk]
  cases value <;> simp [NodeValue.toNative, carried]

theorem parseLoop_encodePairs (pairs : List (Int32 × NodeValue)) {fuel : ℕ}
    (hfuel : (encodePairs pairs).length < fuel) (cur : Option Int32)
    (out : List (Int32 × NodeValue)) :
    parseLoop fuel cur out (encodePairs pairs ++ [0xde]) =
      .ok (out ++ pairs.filter fun p => carried p.2) := by
  induction pairs generalizing fuel cur out with
  | nil =>
    cases fuel with
    | zero => exact absurd hfuel (Nat.not_lt_zero _)
    | succ fuel =>
      rw [List.filter_nil, List.append_nil]
      rfl
  | cons pair pairs ih =>
    obtain ⟨id, value⟩ := pair
    cases henc : encodeValue value.toNative with
    | error e =>
      have hcarried : ¬ carried value = true := by
        rw [← encodeValue_toNative, henc]
        rintro ⟨token, ht⟩
        cases ht
      have hskip : encodePairs ((id, value) :: pairs) = encodePairs pairs := by
        simp only [encodePairs, henc]
      rw [hskip] at hfuel ⊢
      have hfilter : ((id, value) :: pairs).filter (fun p => carried p.2) =
          pairs.filter fun p => carried p.2 := List.filter_cons_of_neg hcarried
      rw [ih hfuel, hfilter]
    | ok token =>
      have hcarried : carried value = true := (encodeValue_toNative value).1 ⟨token, henc⟩
      have hbytes : encodePairs ((id, value) :: pairs) =
          0xd7 :: i32Bytes id ++ token ++ encodePairs pairs := by
        simp only [encodePairs, henc]
      rw [hbytes] at hfuel ⊢
      simp only [List.length_append, List.length_cons, length_i32Bytes] at hfuel
      obtain ⟨fuel, rfl⟩ := Nat.exists_eq_add_of_le' (show 2 ≤ fuel by omega)
      have hfilter : ((id, value) :: pairs).filter (fun p => carried p.2) =
          (id, value) :: pairs.filter fun p => carried p.2 := List.filter_cons_of_pos hcarried
      rw [List.append_assoc, parseLoop_pair henc, ih (by omega), hfilter, List.append_assoc]
      rfl

/-- **Reading back what was written.**  The buffer of any pairs is accepted, and what it holds is
the pairs in their order, without the strings of more than 256 bytes. -/
theorem parseBinaryValues_encodeBinaryValues (pairs : List (Int32 × NodeValue)) :
    parseBinaryValues (encodeBinaryValues pairs) = .ok (pairs.filter fun p => carried p.2) := by
  have hlen : (encodePairs pairs).length < (encodePairs pairs ++ [0xde]).length := by
    rw [List.length_append, List.length_singleton]
    exact Nat.lt_succ_self _
  rw [parseBinaryValues, encodeBinaryValues, parseLoop_encodePairs pairs hlen]
  rfl

end LibWing
