import LibWing.Console.Replay
import LibWing.Native.Response
import LibWing.Node.Codec

/-!
# Server and client agree on the response stream

Reading the frame of a batch of responses returns the responses, in order, whatever the transport
does to the bytes.

* `NativeResponse.received` : what the client makes of a response: a value is data whichever kind
  of message carried it, a definition comes back in its canonical form;
* `Reads` : a parser takes exactly some bytes off a stream; `reads_response` : the parser takes
  the token of a response and returns what was sent;
* `runCalls_encodeResponses` : reading a whole frame.
-/

namespace LibWing

open Stateful

/-! ### What the client receives -/

/-- The value a client receives. -/
def NativeValue.received : NativeValue → WingNodeData
  | .integer v => .withI32 v
  | .float v | .rawFloat v => .withFloat v
  | .string v => .withString v

/-- The response a client receives. -/
def NativeResponse.received : NativeResponse → WingResponse
  | .requestEnd => .requestEnd
  | .nodeData id value | .authoritativeEvent id value => .nodeData id value.received
  | .nodeDef d => .nodeDef (d.canonical (d.toWireBytes.toOption.getD []))

/-- The responses whose unknown nibbles the client can tell from the known ones. -/
def NativeResponse.Readable : NativeResponse → Prop
  | .nodeDef d => d.Readable
  | _ => True

/-- A byte of the audio channel. -/
def audioSymbol (byte : UInt8) : Except Error Decoded := .ok (1, byte)

/-! ### Parsers that take exactly some bytes -/

/-- `x` takes exactly `bytes` and returns `a`, with the node id going from `id` to `id'`. -/
def Reads {α : Type} (x : EStateM Error Stream α) (bytes : List UInt8) (id : Int32) (a : α)
    (id' : Int32) : Prop :=
  ∀ rest n, n + bytes.length ≤ maxNativeResponseBytes →
    x ⟨bytes.map audioSymbol ++ rest, id, n⟩ = .ok a ⟨rest, id', n + bytes.length⟩

namespace Reads

variable {α β : Type} {x : EStateM Error Stream α} {f : α → EStateM Error Stream β}
  {b₁ b₂ : List UInt8} {id id₁ id₂ : Int32} {a : α} {b : β}

theorem pure (a : α) (id : Int32) : Reads (Pure.pure a) [] id a id := fun _ _ _ => rfl

theorem bind (hx : Reads x b₁ id a id₁) (hf : Reads (f a) b₂ id₁ b id₂) :
    Reads (x >>= f) (b₁ ++ b₂) id b id₂ := by
  intro rest n hn
  rw [List.length_append] at hn
  have h₁ := hx (b₂.map audioSymbol ++ rest) n (by omega)
  have h₂ := hf rest (n + b₁.length) (by omega)
  rw [List.map_append, List.append_assoc, List.length_append, ← Nat.add_assoc]
  change EStateM.bind x f _ = _
  simp only [EStateM.bind, h₁]
  exact h₂

/-- A program that takes nothing after `x`. -/
theorem bind_nil (hx : Reads x b₁ id a id₁) (hf : Reads (f a) [] id₁ b id₂) :
    Reads (x >>= f) b₁ id b id₂ := by
  have h := hx.bind hf
  rwa [List.append_nil] at h

theorem next (byte : UInt8) (id : Int32) : Reads Stream.next [byte] id (1, byte) id := by
  intro rest n hn
  have hroom : ¬ n ≥ maxNativeResponseBytes := by
    simp only [List.length_singleton] at hn
    omega
  simp only [Stream.next, List.map_cons, List.map_nil, List.cons_append, List.nil_append,
    audioSymbol, hroom, ↓reduceIte, List.length_singleton]

theorem readU8 (a : UInt8) (id : Int32) : Reads Stream.source.readU8 [a] id a id :=
  (next a id).bind_nil (pure _ _)

theorem readU16 (a b : UInt8) (id : Int32) :
    Reads Stream.source.readU16 [a, b] id (BigEndian.fromBe16 a b) id :=
  (next a id).bind ((next b id).bind_nil (pure _ _))

theorem readU32 (a b c d : UInt8) (id : Int32) :
    Reads Stream.source.readU32 [a, b, c, d] id (BigEndian.fromBe32 a b c d) id :=
  (next a id).bind ((next b id).bind ((next c id).bind ((next d id).bind_nil (pure _ _))))

theorem readBytes (bytes : List UInt8) (id : Int32) :
    Reads (Stream.source.readBytes bytes.length) bytes id bytes id := by
  induction bytes with
  | nil => exact pure [] id
  | cons byte bytes ih => exact (next byte id).bind (ih.bind_nil (pure _ _))

theorem readString (value : String) (id : Int32) :
    Reads (Stream.source.readString (utf8 value).length) (utf8 value) id value id := by
  refine (readBytes (utf8 value) id).bind_nil ?_
  rw [fromUtf8_utf8]
  exact pure value id

theorem nodeData (data : WingNodeData) (id : Int32) :
    Reads (Stream.source.nodeData data) [] id (some (.nodeData id data)) id := fun _ _ _ => rfl

/-- A token from its opcode and the rest. -/
theorem readToken {cmd : UInt8} {bytes : List UInt8} {r : Option WingResponse}
    (h : Reads (Stream.source.token cmd) bytes id r id₁) :
    Reads Stream.source.readToken (cmd :: bytes) id r id₁ :=
  (next cmd id).bind h

end Reads

/-! ### The tokens of a response -/

open BigEndian

theorem reads_nodeId (id id' : Int32) :
    Reads Stream.source.readToken (0xd7 :: i32Bytes id') id none id' := by
  have hop : Opcode.ofByte 0xd7 = .nodeId := by decide
  refine Reads.readToken ?_
  simp only [Source.token, hop]
  have hset : Reads (Stream.source.setCurrentNodeId id') [] id () id' := fun _ _ _ => rfl
  refine (Reads.readU32 _ _ _ _ id).bind_nil ?_
  rw [fromBe32_toBe32, Int32.toInt32_toUInt32]
  exact hset.bind_nil (Reads.pure _ _)

theorem reads_value {value : NativeValue} {token : List UInt8} (h : encodeValue value = .ok token)
    (id : Int32) :
    Reads Stream.source.readToken token id (some (.nodeData id value.received)) id := by
  cases value with
  | integer v =>
    simp only [encodeValue] at h
    split_ifs at h with hsmall h16
    · cases h
      obtain ⟨hop, hv⟩ := smallInt_byte hsmall.1 hsmall.2
      refine Reads.readToken ?_
      simp only [Source.token, hop, hv]
      exact Reads.nodeData _ id
    · cases h
      have hop : Opcode.ofByte 0xd3 = .int16 := by decide
      refine Reads.readToken ?_
      simp only [Source.token, hop]
      refine (Reads.readU16 _ _ id).bind_nil ?_
      rw [fromBe16_toBe16, Int16.toInt16_toUInt16, toInt16_toInt32 h16.1 h16.2]
      exact Reads.nodeData _ id
    · cases h
      have hop : Opcode.ofByte 0xd4 = .int32 := by decide
      refine Reads.readToken ?_
      simp only [Source.token, hop]
      refine (Reads.readU32 _ _ _ _ id).bind_nil ?_
      rw [fromBe32_toBe32, Int32.toInt32_toUInt32]
      exact Reads.nodeData _ id
  | float v =>
    cases h
    have hop : Opcode.ofByte 0xd5 = .float := by decide
    refine Reads.readToken ?_
    simp only [Source.token, hop]
    refine (Reads.readU32 _ _ _ _ id).bind_nil ?_
    rw [fromBe32_toBe32]
    exact Reads.nodeData _ id
  | rawFloat v =>
    cases h
    have hop : Opcode.ofByte 0xd6 = .rawFloat := by decide
    refine Reads.readToken ?_
    simp only [Source.token, hop]
    refine (Reads.readU32 _ _ _ _ id).bind_nil ?_
    rw [fromBe32_toBe32]
    exact Reads.nodeData _ id
  | string v =>
    simp only [encodeValue] at h
    split_ifs at h with h₀ h₁ h₂
    · cases h
      have hop : Opcode.ofByte 0xd0 = .emptyString := by decide
      refine Reads.readToken ?_
      simp only [Source.token, hop, NativeValue.received,
        utf8_eq_nil (List.length_eq_zero_iff.1 h₀)]
      exact Reads.nodeData _ id
    · cases h
      obtain ⟨hop, hlen⟩ := shortString_byte h₀ h₁
      refine Reads.readToken ?_
      simp only [Source.token, hop, hlen]
      exact (Reads.readString v id).bind_nil (Reads.nodeData _ id)
    · cases h
      have hop : Opcode.ofByte 0xd1 = .longString := by decide
      refine Reads.readToken ?_
      simp only [Source.token, hop]
      refine (Reads.readU8 (UInt8.ofNat ((utf8 v).length - 1)) id).bind ?_
      rw [longString_byte h₀ h₂]
      exact (Reads.readString v id).bind_nil (Reads.nodeData _ id)

/-- The length of a definition, in either form. -/
theorem reads_definitionLength {len : ℕ} (h₀ : len ≠ 0) (h₁ : len ≤ maxDefinitionBytes)
    (id : Int32) :
    ∃ n : UInt32, Reads Stream.source.readDefLength (definitionLength len) id n id ∧
      n.toNat = len := by
  have hmax : maxDefinitionBytes = 1048576 := rfl
  unfold definitionLength
  split_ifs with hle
  · refine ⟨(UInt16.ofNat len).toUInt32, (Reads.readU16 _ _ id).bind_nil ?_, ?_⟩
    · have hne : ¬ UInt16.ofNat len = 0 := by
        intro h
        have hz := congrArg UInt16.toNat h
        rw [UInt16.toNat_ofNat'] at hz
        change len % 65536 = 0 at hz
        omega
      rw [fromBe16_toBe16, if_neg hne]
      exact Reads.pure _ id
    · rw [UInt16.toNat_toUInt32, UInt16.toNat_ofNat']
      omega
  · refine ⟨UInt32.ofNat len, (Reads.readU16 _ _ id).bind ?_, ?_⟩
    · rw [fromBe16_toBe16, if_pos rfl]
      have h := Reads.readU32 (UInt32.ofNat len >>> 24).toUInt8 (UInt32.ofNat len >>> 16).toUInt8
        (UInt32.ofNat len >>> 8).toUInt8 (UInt32.ofNat len).toUInt8 id
      rw [fromBe32_toBe32] at h
      exact h
    · rw [UInt32.toNat_ofNat']
      omega

/-- The body of a definition is never empty. -/
theorem toWireBytes_ne_nil {d : WingNodeDef} {body : List UInt8} (h : d.toWireBytes = .ok body) :
    body.length ≠ 0 := by
  obtain ⟨name, -, h⟩ := Except.bind_eq_ok.1 h
  obtain ⟨longName, -, h⟩ := Except.bind_eq_ok.1 h
  obtain ⟨fields, -, h⟩ := Except.bind_eq_ok.1 h
  cases Except.pure_eq_ok.1 h
  simp only [List.length_append, length_i32Bytes]
  omega

theorem reads_nodeDef {d : WingNodeDef} (hd : d.Readable) {body : List UInt8}
    (h : d.toWireBytes = .ok body) (hlen : body.length ≤ maxDefinitionBytes) (id : Int32) :
    Reads Stream.source.readToken (0xdf :: definitionLength body.length ++ body) id
      (some (.nodeDef (d.canonical body))) id := by
  have hop : Opcode.ofByte 0xdf = .nodeDef := by decide
  obtain ⟨n, hread, hn⟩ := reads_definitionLength (toWireBytes_ne_nil h) hlen id
  refine Reads.readToken ?_
  simp only [Source.token, hop]
  refine hread.bind ?_
  have hle : ¬ n.toNat > maxNodeDefBytes := by
    rw [hn]
    exact Nat.not_lt.2 hlen
  rw [if_neg hle, hn]
  refine (Reads.readBytes body id).bind_nil ?_
  rw [WingNodeDef.fromBytes_toWireBytes hd h]
  exact Reads.pure _ id

/-! ### One response -/

/-- A response is one token, or a node id and a token. -/
theorem reads_response {response : NativeResponse} (hr : response.Readable) {token : List UInt8}
    (h : encodeResponse response = .ok token) (fuel : ℕ) (id : Int32) :
    ∃ id', Reads (Stream.source.readInner (fuel + 2)) token id response.received id' := by
  have hsome : ∀ {bytes r} (fuel : ℕ) (id : Int32),
      Reads Stream.source.readToken bytes id (some r) id →
      Reads (Stream.source.readInner (fuel + 1)) bytes id r id := fun fuel id hread =>
    hread.bind_nil (Reads.pure _ id)
  have hdata : ∀ {id' : Int32} {value : NativeValue}, (do
      let token ← encodeValue value
      return 0xd7 :: i32Bytes id' ++ token) = Except.ok token →
      Reads (Stream.source.readInner (fuel + 2)) token id (.nodeData id' value.received) id' := by
    intro id' value h
    obtain ⟨bytes, henc, h⟩ := Except.bind_eq_ok.1 h
    cases Except.pure_eq_ok.1 h
    exact (reads_nodeId id id').bind (hsome fuel id' (reads_value henc id'))
  cases response with
  | requestEnd =>
    cases h
    have hend : Reads Stream.source.readToken [0xde] id (some .requestEnd) id :=
      Reads.readToken (fun _ _ _ => rfl)
    exact ⟨id, hsome (fuel + 1) id hend⟩
  | nodeData id' value => exact ⟨id', hdata h⟩
  | authoritativeEvent id' value => exact ⟨id', hdata h⟩
  | nodeDef d =>
    obtain ⟨body, hbody, h⟩ := Except.bind_eq_ok.1 h
    by_cases hgt : body.length > maxDefinitionBytes
    · dsimp only at h
      rw [if_pos hgt] at h
      cases h
    · dsimp only at h
      rw [if_neg hgt] at h
      cases Except.pure_eq_ok.1 h
      have hrec : NativeResponse.received (.nodeDef d) = .nodeDef (d.canonical body) := by
        simp only [NativeResponse.received, hbody, Except.toOption, Option.getD_some]
      rw [hrec]
      exact ⟨id, hsome (fuel + 1) id (reads_nodeDef hr hbody (Nat.not_lt.1 hgt) id)⟩

theorem encodeValue_length {value : NativeValue} {token : List UInt8}
    (h : encodeValue value = .ok token) : token.length ≤ 258 := by
  cases value with
  | integer v =>
    simp only [encodeValue] at h
    split_ifs at h <;> cases h <;> simp [i16Bytes]
  | float v =>
    cases h
    simp
  | rawFloat v =>
    cases h
    simp
  | string v =>
    simp only [encodeValue] at h
    split_ifs at h <;> cases h <;> simp only [List.length_cons, List.length_nil] <;> omega

/-- Both sides agree on the sizes: a token never exceeds what the client accepts as a response. -/
theorem encodeResponse_length {response : NativeResponse} {token : List UInt8}
    (h : encodeResponse response = .ok token) : token.length ≤ maxNativeResponseBytes := by
  have hmax : maxNativeResponseBytes = 16777216 := rfl
  have hdef : maxDefinitionBytes = 1048576 := rfl
  have hdata : ∀ {id : Int32} {value : NativeValue}, (do
      let token ← encodeValue value
      return 0xd7 :: i32Bytes id ++ token) = Except.ok token →
      token.length ≤ maxNativeResponseBytes := by
    intro id value h
    obtain ⟨bytes, henc, h⟩ := Except.bind_eq_ok.1 h
    cases Except.pure_eq_ok.1 h
    have := encodeValue_length henc
    simp only [List.length_append, List.length_cons, length_i32Bytes]
    omega
  cases response with
  | requestEnd =>
    cases h
    decide
  | nodeData id value => exact hdata h
  | authoritativeEvent id value => exact hdata h
  | nodeDef d =>
    obtain ⟨body, -, h⟩ := Except.bind_eq_ok.1 h
    by_cases hgt : body.length > maxDefinitionBytes
    · dsimp only at h
      rw [if_pos hgt] at h
      cases h
    · dsimp only at h
      rw [if_neg hgt] at h
      cases Except.pure_eq_ok.1 h
      have hlen : (definitionLength body.length).length ≤ 6 := by
        unfold definitionLength
        split_ifs <;> simp
      simp only [List.length_append, List.length_cons]
      omega

/-- One read of the stream returns the response at its head. -/
theorem read_response {response : NativeResponse} (hr : response.Readable) {token : List UInt8}
    (h : encodeResponse response = .ok token) (rest : List (Except Error Decoded)) (id : Int32) :
    ∃ id', outcome Stream.read ⟨token.map audioSymbol ++ rest, id, 0⟩ =
      (.ok response.received, ⟨rest, id', 0⟩) := by
  obtain ⟨id', hread⟩ := reads_response hr h (maxNativeResponseBytes - 1) id
  have hlen := encodeResponse_length h
  have hrun := hread rest 0 (by omega)
  refine ⟨id', Stream.outcome_ok ?_⟩
  exact Stream.read_ok (s := ⟨token.map audioSymbol ++ rest, id, 0⟩) hrun

/-! ### A frame -/

/-- Past its end a stream has no responses. -/
theorem reads_nil (k : ℕ) (id : Int32) :
    Stream.reads k ⟨[], id, 0⟩ = (List.replicate k (.error .connectionError), ⟨[], id, 0⟩) := by
  have hread : outcome Stream.read ⟨[], id, 0⟩ = (.error .connectionError, ⟨[], id, 0⟩) := rfl
  induction k with
  | zero => rfl
  | succ k ih => simp only [Stream.reads, hread, ih, List.replicate_succ]

theorem reads_tokens {responses : List NativeResponse} (hr : ∀ r ∈ responses, r.Readable)
    {tokens : List UInt8} (h : encodeTokens responses = .ok tokens) (k : ℕ) (id : Int32) :
    (Stream.reads (responses.length + k) ⟨tokens.map audioSymbol, id, 0⟩).1 =
      responses.map (fun r => .ok r.received) ++ List.replicate k (.error .connectionError) := by
  induction responses generalizing tokens id with
  | nil =>
    cases h
    rw [List.length_nil, Nat.zero_add, List.map_nil, reads_nil]
    rfl
  | cons response responses ih =>
    obtain ⟨token, ht, h⟩ := Except.bind_eq_ok.1 h
    obtain ⟨more, hm, h⟩ := Except.bind_eq_ok.1 h
    cases Except.pure_eq_ok.1 h
    obtain ⟨id', hread⟩ := read_response (hr response (List.mem_cons_self ..)) ht
      (more.map audioSymbol) id
    rw [List.map_append, List.length_cons, Nat.add_right_comm, Stream.reads, hread]
    simp only [List.map_cons, List.cons_append]
    rw [ih (fun r h => hr r (List.mem_cons_of_mem _ h)) hm id']

/-- The logical stream of bytes the framing accepts, and of what follows them. -/
theorem decodeSymbols_push_append {d d' : ChannelDecoder} {bytes : List UInt8}
    {events : List ChannelEvent} (h : d.push bytes = (.ok events, d'))
    (rest : List (Except Error UInt8)) :
    decodeSymbols d (bytes.map .ok ++ rest) = audioBytes events ++ decodeSymbols d' rest := by
  induction bytes generalizing d events with
  | nil =>
    cases h
    rfl
  | cons byte bytes ih =>
    obtain ⟨first, d₁, more, h₁, h₂, rfl⟩ := ChannelDecoder.push_cons_eq_ok.1 h
    have hok : (d.pushByte byte).1 = .ok first := by rw [h₁]
    rw [List.map_cons, List.cons_append, decodeSymbols_ok hok, h₁, ih h₂, audioBytes_append,
      List.append_assoc]

theorem decodeSymbols_push {d d' : ChannelDecoder} {bytes : List UInt8}
    {events : List ChannelEvent} (h : d.push bytes = (.ok events, d')) :
    decodeSymbols d (bytes.map .ok) = audioBytes events := by
  have happend := decodeSymbols_push_append h []
  rwa [List.append_nil, decodeSymbols, List.append_nil] at happend

theorem audioBytes_data (bytes : List UInt8) :
    audioBytes (bytes.map (.data 1)) = bytes.map audioSymbol := by
  induction bytes with
  | nil => rfl
  | cons byte bytes ih =>
    simp only [List.map_cons, audioBytes, audioEngineChannel, ↓reduceIte, ih]
    rfl

theorem decodeSymbols_frame (tokens : List UInt8) :
    decodeSymbols (.on audioEngineChannel)
      (([escape, channelBase + 1] ++ escapeBytes tokens).map .ok) = tokens.map audioSymbol := by
  have hselect := ChannelDecoder.push_select 1 (by decide)
    (show (ChannelDecoder.on audioEngineChannel).escaped = false from rfl)
  have hpush := ChannelDecoder.push_append_eq_ok.2
    ⟨_, _, _, hselect, ChannelDecoder.push_escapeBytes 1 tokens, rfl⟩
  rw [decodeSymbols_push hpush, ← audioBytes_data]
  rfl

namespace Console

/-- **Server and client agree.**  In an undisturbed session over any transport whose stream is the
frame of a batch, however it cuts it, plain reads return the responses of the batch in order and
then the end of the stream. -/
theorem runCalls_encodeResponses (responses : List NativeResponse)
    (hr : ∀ r ∈ responses, r.Readable) (wire : List UInt8)
    (h : encodeResponses responses = .ok wire) (w : World) (hw : w.Calm) (now : Time)
    (rsock : List Poll) (hsock : rawSymbols rsock = wire.map .ok) (k : ℕ) :
    (runCalls w (List.replicate (responses.length + k) .read) (new now rsock)).1 =
      responses.map (fun r => .ok r.received) ++ List.replicate k (.error .connectionError) := by
  obtain ⟨tokens, ht, rfl⟩ := encodeResponses_eq_ok h
  rcases hrun : runCalls w (List.replicate (responses.length + k) .read) (new now rsock) with
    ⟨rs, c⟩
  obtain ⟨hreads, -⟩ := runCalls_reads hw _ (idle_new now rsock) hrun
  obtain ⟨hall, hlen⟩ := runCalls_plain hw _ (idle_new now rsock) hrun
  rw [stream_new, hsock, decodeSymbols_frame, hall, hlen] at hreads
  have htokens := reads_tokens hr ht k 0
  rw [hreads] at htokens
  exact htokens

/-- A raw float, a definition of an unknown type and the end of a reply, cut inside escapes. -/
theorem runCalls_encodeResponses_unknown :
    let d : WingNodeDef :=
      { id := 0xdf, parentId := 4, index := 2, name := "a", longName := "b"
        nodeType := .unknown 9, unit := .db, readOnly := false, minFloat := none
        maxFloat := none, steps := some 3, minInt := none, maxInt := none, maxStringLen := none
        stringEnum := none, floatEnum := none, raw := [] }
    let body : List UInt8 := [0, 0, 0, 4, 0, 0, 0, 0xdf, 0, 2, 1, 0x61, 1, 0x62, 0, 0x91]
    let rsock : List Poll :=
      [.read (.ok [0xdf, 0xd1, 0xd7, 0, 0, 0, 0xdf]), .read (.error .wouldBlock),
        .read (.ok [0xde, 0xd6, 0x3f, 0, 0, 0, 0xdf, 0xde, 0, 0x10, 0, 0, 0, 4, 0, 0, 0, 0xdf]),
        .read (.ok [0xde, 0, 2, 1, 0x61, 1, 0x62, 0, 0x91, 0xde])]
    (runCalls .steady (List.replicate (3 + 1) .read) (new 0 rsock)).1 =
      [.ok (.nodeData 0xdf (.withFloat ⟨0x3f000000⟩)),
        .ok (.nodeDef { d with steps := none, raw := body }), .ok .requestEnd,
        .error .connectionError] := by
  intro d body rsock
  have hd : d.Readable := by
    refine ⟨fun nibble h => ?_, fun nibble h => ?_⟩
    · cases h
      exact ⟨by decide, by decide⟩
    · cases h
  refine (runCalls_encodeResponses
    [.authoritativeEvent 0xdf (.rawFloat ⟨0x3f000000⟩), .nodeDef d, .requestEnd]
    (by
      intro r hr
      simp only [List.mem_cons, List.not_mem_nil, or_false] at hr
      rcases hr with rfl | rfl | rfl
      · trivial
      · exact hd
      · trivial)
    [0xdf, 0xd1, 0xd7, 0, 0, 0, 0xdf, 0xde, 0xd6, 0x3f, 0, 0, 0, 0xdf, 0xde, 0, 0x10, 0, 0, 0, 4,
      0, 0, 0, 0xdf, 0xde, 0, 2, 1, 0x61, 1, 0x62, 0, 0x91, 0xde]
    (by decide +kernel) .steady World.steady_calm 0 rsock (by decide +kernel) 1).trans ?_
  decide +kernel

end Console

end LibWing
