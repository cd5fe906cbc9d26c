import LibWing.Client.Messages
import LibWing.Native.Tokens

/-!
# Client and server agree on the request stream

The server's decoder reads the messages of a client, written in any order and cut in any way, as
the requests the operations stand for.

* `Ready` : the decoder between two messages, on the audio channel with empty buffers;
* `decodeAll_message` : one message takes a ready decoder to a ready decoder and is read as the
  operation's requests;
* `pushAll_clientBytes` : a whole session, in any fragmentation.
-/

namespace LibWing

/-! ### Messages as escaped payloads -/

theorem formatId_eq (id : Int32) (opcode : UInt8) (suffix : Option UInt8) (buf : List UInt8)
    (hop : opcode ≠ escape) (hsuf : suffix ≠ some escape) :
    formatId id buf opcode suffix =
      buf ++ escapeBytes (opcode :: i32Bytes id ++ suffix.toList) := by
  have hs : escapeBytes suffix.toList = suffix.toList := by
    cases suffix with
    | none => rfl
    | some byte => exact escapeBytes_singleton fun h => hsuf (by rw [h])
  rw [formatId, appendEscaped_eq, escapeBytes_append, hs,
    show opcode :: i32Bytes id = [opcode] ++ i32Bytes id from rfl, escapeBytes_append,
    escapeBytes_singleton hop]
  simp only [List.append_assoc]

theorem setValueMessage_eq {id : Int32} {value : NativeValue} {token : List UInt8}
    (henc : encodeValue value = .ok token) :
    setValueMessage id value = .ok (escapeBytes ((0xd7 :: i32Bytes id) ++ token)) := by
  rw [setValueMessage, appendValueMessage, henc, escapeBytes_append]
  simp only [appendEscaped_eq, formatId_eq id 0xd7 none [] (by decide) (by decide), bind,
    Except.bind, List.nil_append, Option.toList_none, List.append_nil]
  rfl

/-- The entries of a subscription. -/
def meterEntries (meters : List Meter) : List UInt8 := meters.flatMap Meter.entry

theorem encodeMeters_eq {meters : List Meter} (hv : ∀ meter ∈ meters, meter.Valid)
    (buf : List UInt8) :
    encodeMeters buf meters = .ok (buf ++ escapeBytes (meterEntries meters)) := by
  induction meters generalizing buf with
  | nil => simp [encodeMeters, meterEntries]
  | cons meter meters ih =>
    have hm := hv meter (List.mem_cons_self ..)
    simp only [encodeMeters, encodeMeter_eq, hm, ↓reduceIte, bind, Except.bind]
    rw [ih fun m h => hv m (List.mem_cons_of_mem _ h)]
    simp only [meterEntries, List.flatMap_cons, escapeBytes_append, List.append_assoc]

theorem subscribeMessage_eq {meters : List Meter} (hv : ∀ meter ∈ meters, meter.Valid)
    (id port : UInt16) :
    subscribeMessage id port meters =
      .ok ([0xdf, 0xd3] ++ escapeBytes ((0xd3 :: BigEndian.toBe16 port) ++
        ((0xd4 :: (BigEndian.toBe16 id ++ BigEndian.toBe16 port)) ++ 0xdc :: meterEntries meters ++
          [0xde])) ++ [0xdf, 0xd1]) := by
  have hd3 : (0xd3 : UInt8) ≠ escape := by decide
  have hd4 : (0xd4 : UInt8) ≠ escape := by decide
  have hdc : (0xdc : UInt8) ≠ escape := by decide
  have hde : (0xde : UInt8) ≠ escape := by decide
  simp only [subscribeMessage, encodeMeters_eq hv, appendEscaped_eq, bind, Except.bind, pure,
    Except.pure, escapeBytes_append, List.cons_append, List.append_assoc, List.nil_append,
    escapeBytes_cons hd3, escapeBytes_cons hd4, escapeBytes_cons hdc, escapeBytes_cons hde,
    escapeBytes_nil]

theorem renewMessage_eq (id port : UInt16) :
    renewMessage id port =
      [0xdf, 0xd3] ++ escapeBytes (0xd4 :: (BigEndian.toBe16 id ++ BigEndian.toBe16 port)) ++
        [0xdf, 0xd1] := by
  have hd4 : (0xd4 : UInt8) ≠ escape := by decide
  simp only [renewMessage, appendEscaped_eq, escapeBytes_append, List.cons_append,
    List.append_assoc, List.nil_append, escapeBytes_cons hd4]

/-! ### The entries of a subscription -/

theorem decodeMeterLoop_entry {limit : ℕ} {family : Option UInt8} {acc : List Meter}
    {meter : Meter} (hv : meter.Valid) (hlim : acc.length < limit) (rest : List UInt8) :
    decodeMeterLoop limit family acc (meter.entry ++ rest) =
      decodeMeterLoop limit (some meter.wire.1) (acc ++ [meter]) rest := by
  have hrange := meter.opcode_range
  have hroom : ¬ (acc ++ [meter]).length > limit := by
    rw [List.length_append, List.length_singleton]
    omega
  by_cases hmax : meter.wire.2.2 = 0
  · have hw := meter.fromWire_wire
    rw [meter.index_eq_zero hmax] at hw
    simp only [Meter.entry, hmax, ↓reduceIte, List.cons_append, List.nil_append, decodeMeterLoop,
      hrange, and_self, hw, Option.filter_some, decide_true, hroom]
  · -- The opcode of an indexed family adds nothing by itself; the index byte adds the meter.
    obtain ⟨hn0, hle⟩ := hv.resolve_left hmax
    have hle' : meter.wire.2.1 ≤ 40 := UInt8.le_trans hle meter.max_le
    have hindex : ∀ n : UInt8, n ≠ 0 → n ≤ 40 → ¬ (0xa0 ≤ n - 1 ∧ n - 1 ≤ 0xaf) ∧ n - 1 ≤ 0x7f := by
      decide +kernel
    obtain ⟨hnot, hsmall⟩ := hindex _ hn0 hle'
    have hsub : meter.wire.2.1 - 1 + 1 = meter.wire.2.1 := by simp
    have hacc : ¬ acc.length > limit := by omega
    simp only [Meter.entry, hmax, ↓reduceIte, List.cons_append, List.nil_append, decodeMeterLoop,
      hrange, and_self, meter.fromWire_zero hmax, hacc, hnot, hsmall, hsub, meter.fromWire_wire,
      hroom]

/-- The entries of at most `limit` valid meters decode to the meters. -/
theorem decodeMeterLoop_entries {limit : ℕ} (family : Option UInt8) (acc : List Meter)
    {meters : List Meter}
    (hv : ∀ meter ∈ meters, meter.Valid) (hlim : acc.length + meters.length ≤ limit) :
    decodeMeterLoop limit family acc (meterEntries meters) = .ok (acc ++ meters) := by
  induction meters generalizing acc family with
  | nil => simp [meterEntries, decodeMeterLoop]
  | cons meter meters ih =>
    rw [List.length_cons] at hlim
    rw [meterEntries, List.flatMap_cons,
      decodeMeterLoop_entry (hv meter (List.mem_cons_self ..)) (by omega)]
    have h := ih (some meter.wire.1) (acc ++ [meter])
      (fun m hm => hv m (List.mem_cons_of_mem _ hm))
      (by rw [List.length_append, List.length_singleton]; omega)
    rw [meterEntries] at h
    rw [h, List.append_assoc, List.singleton_append]

theorem entry_bytes {meter : Meter} (hv : meter.Valid) :
    (0xde : UInt8) ∉ meter.entry ∧ meter.entry.length ≤ 2 := by
  have hop : meter.wire.1 ≠ 0xde := by
    intro h
    have hrange := meter.opcode_range
    rw [h] at hrange
    exact absurd hrange (by decide)
  by_cases hmax : meter.wire.2.2 = 0
  · simp [Meter.entry, hmax, hop.symm]
  · have hle : meter.wire.2.1 ≤ 40 := UInt8.le_trans (hv.resolve_left hmax).2 meter.max_le
    have hindex : ∀ n : UInt8, n ≠ 0 → n ≤ 40 → n - 1 ≠ 0xde := by
      decide +kernel
    have hn := hindex _ (hv.resolve_left hmax).1 hle
    simp [Meter.entry, hmax, hop.symm, hn.symm]

theorem meterEntries_bytes {meters : List Meter} (hv : ∀ meter ∈ meters, meter.Valid) :
    (0xde : UInt8) ∉ meterEntries meters ∧ (meterEntries meters).length ≤ 2 * meters.length := by
  induction meters with
  | nil => simp [meterEntries]
  | cons meter meters ih =>
    obtain ⟨hmem, hlen⟩ := entry_bytes (hv meter (List.mem_cons_self ..))
    obtain ⟨hmem', hlen'⟩ := ih fun m h => hv m (List.mem_cons_of_mem _ h)
    rw [meterEntries] at hmem' hlen' ⊢
    rw [List.flatMap_cons, List.mem_append, List.length_append, List.length_cons]
    exact ⟨fun h => h.elim hmem hmem', by omega⟩

/-! ### One message -/

namespace NativeRequestDecoder

variable {d d' : NativeRequestDecoder}

/-- The decoder between two messages of a client. -/
structure Ready (d : NativeRequestDecoder) : Prop where
  /-- It is on the channel of the audio engine. -/
  channels : d.channels = .on 1
  /-- No token has begun there. -/
  audio : d.audio = []
  /-- No command has begun on the meter channel. -/
  meter : d.meter = []
  /-- Its limits are the default ones. -/
  limits : d.limits = .default

/-- The decoder reads an escaped payload on the selected channel. -/
theorem decodeAll_payload {ch : UInt8} {payload : List UInt8} {rs : List NativeRequest}
    {p : RequestParser} (hd : d.channels = .on ch)
    (h : d.toRequestParser.feed (payload.map (.data ch)) = .ok (rs, p)) :
    d.decodeAll (escapeBytes payload) = .ok (rs, { toRequestParser := p, channels := .on ch }) :=
  decodeAll_eq_ok.2 ⟨_, by rw [hd, ChannelDecoder.push_escapeBytes], h⟩

/-- Selecting a channel resolves a pending renewal. -/
theorem decodeAll_select (ch : UInt8) {rs : List NativeRequest} {p : RequestParser}
    (hch : ch < channelCount) (hd : d.channels.escaped = false)
    (h : d.toRequestParser.flushMeterRenewal = .ok (rs, p)) :
    d.decodeAll [0xdf, channelBase + ch] =
      .ok (rs ++ [.keepAlive ch], { toRequestParser := p, channels := .on ch }) := by
  refine decodeAll_eq_ok.2 ⟨_, ChannelDecoder.push_select ch hch hd, ?_⟩
  refine RequestParser.feed_singleton ?_
  simp only [RequestParser.pushEvent, h, bind, Except.bind]
  rfl

theorem flush_nil {p : RequestParser} (hp : p.meter = []) :
    p.flushMeterRenewal = .ok ([], p) := by
  simp only [RequestParser.flushMeterRenewal, hp]

theorem decodeAll_meter (hd : Ready d) {payload : List UInt8} {rs rs' : List NativeRequest}
    {p p' : RequestParser}
    (hfeed : d.toRequestParser.feed (payload.map (.data 3)) = .ok (rs, p))
    (hflush : p.flushMeterRenewal = .ok (rs', p')) :
    d.decodeAll ([0xdf, 0xd3] ++ escapeBytes payload ++ [0xdf, 0xd1]) =
      .ok (.keepAlive 3 :: rs ++ (rs' ++ [.keepAlive 1]),
        { toRequestParser := p', channels := .on 1 }) := by
  have h₁ : d.decodeAll [0xdf, 0xd3] =
      .ok ([.keepAlive 3], { d with channels := .on 3 }) :=
    decodeAll_select 3 (by decide) (by rw [hd.channels]; rfl) (flush_nil hd.meter)
  have h₂ : ({ d with channels := .on 3 } : NativeRequestDecoder).decodeAll (escapeBytes payload) =
      .ok (rs, { toRequestParser := p, channels := .on 3 }) :=
    decodeAll_payload rfl hfeed
  have h₃ : ({ toRequestParser := p, channels := .on 3 } : NativeRequestDecoder).decodeAll
      [0xdf, 0xd1] = .ok (rs' ++ [.keepAlive 1], { toRequestParser := p', channels := .on 1 }) :=
    decodeAll_select 1 (by decide) rfl hflush
  exact decodeAll_append.2 ⟨_, _, _, decodeAll_append.2 ⟨_, _, _, h₁, h₂, rfl⟩, h₃, rfl⟩

theorem decodeAll_node (hd : Ready d) {id : Int32} (token : List UInt8)
    {rs : List NativeRequest} {p : RequestParser}
    (htoken : { d.toRequestParser with selectedId := some id }.feed (token.map (.data 1)) =
      .ok (rs, p)) :
    d.decodeAll (escapeBytes ((0xd7 :: i32Bytes id) ++ token)) =
      .ok (rs, { toRequestParser := p, channels := .on 1 }) := by
  refine decodeAll_payload hd.channels ?_
  have hlim : 5 + d.meter.length ≤ d.limits.maxBufferedBytes := by
    rw [hd.meter, hd.limits]
    decide
  rw [List.map_append]
  exact RequestParser.feed_append_eq_ok.2
    ⟨[], _, rs, RequestParser.feed_nodeId hd.audio hlim id, htoken, rfl⟩

/-- A parser with empty buffers, back on the audio channel. -/
theorem ready_of {p : RequestParser} (ha : p.audio = []) (hm : p.meter = [])
    (hl : p.limits = .default) : Ready { toRequestParser := p, channels := .on 1 } :=
  ⟨rfl, ha, hm, hl⟩

theorem feed_byte {p p' : RequestParser} {opcode : UInt8} {step : RequestParser.AudioStep}
    {rs : List NativeRequest} (ha : p.audio = []) (hm : p.meter = []) (hl : p.limits = .default)
    (hs : { p with audio := [opcode] }.audioToken opcode [] = .ok step) (hy : step.Yields rs p')
    (ha' : p'.audio = []) : p.feed [.data 1 opcode] = .ok (rs, p') := by
  refine RequestParser.feed_opcode ha ?_ hs hy ha'
  rw [hm, hl]
  decide

/-- The parser at the root of the tree. -/
def atRoot (p : RequestParser) : RequestParser :=
  { p with selectedId := none, path := [], pathBytes := 0 }

theorem decodeAll_root (hd : Ready d) {opcode : UInt8} {r : NativeRequest}
    (hop : opcode ≠ escape)
    (hs : { atRoot d.toRequestParser with audio := [opcode] }.audioToken opcode [] =
      .ok (.request r (atRoot d.toRequestParser))) :
    d.decodeAll [0xda, opcode] =
      .ok ([r], { toRequestParser := atRoot d.toRequestParser, channels := .on 1 }) := by
  have hroot : d.toRequestParser.feed [.data 1 0xda] = .ok ([], atRoot d.toRequestParser) := by
    refine feed_byte hd.audio hd.meter hd.limits rfl ⟨rfl, ?_⟩ hd.audio
    have ha := hd.audio
    simp only [RequestParser.drainAudio, atRoot, ha, List.drop_succ_cons, List.drop_nil]
  have htoken : (atRoot d.toRequestParser).feed [.data 1 opcode] =
      .ok ([r], atRoot d.toRequestParser) :=
    feed_byte hd.audio hd.meter hd.limits hs ⟨rfl, rfl⟩ hd.audio
  have hesc : [0xda, opcode] = escapeBytes [0xda, opcode] := by
    rw [escapeBytes_cons (by decide), escapeBytes_cons hop, escapeBytes_nil]
  rw [hesc]
  exact decodeAll_payload hd.channels
    (RequestParser.feed_append_eq_ok (a := [.data 1 0xda]) (b := [.data 1 opcode]) |>.2
      ⟨[], _, [r], hroot, htoken, rfl⟩)

theorem decodeAll_nodeByte (hd : Ready d) {id : Int32} {opcode : UInt8} {r : NativeRequest}
    (hop : opcode ≠ escape)
    (hs : { d.toRequestParser with selectedId := some id, audio := [opcode] }.audioToken opcode [] =
      .ok (.request r { d.toRequestParser with selectedId := some id })) :
    d.decodeAll (formatId id [] 0xd7 (some opcode)) =
      .ok ([r], { toRequestParser := { d.toRequestParser with selectedId := some id }
                  channels := .on 1 }) := by
  rw [formatId_eq id 0xd7 (some opcode) [] (by decide) fun h => hop (Option.some.inj h)]
  exact decodeAll_node hd [opcode]
    (feed_byte hd.audio hd.meter hd.limits hs ⟨rfl, rfl⟩ hd.audio)

theorem decodeAll_setValue (hd : Ready d) (id : Int32) {value : NativeValue}
    (hv : ∀ s, value = .string s → (utf8 s).length ≤ 256) :
    ∃ bytes d', setValueMessage id value = .ok bytes ∧
      d.decodeAll bytes = .ok ([.set id value], d') ∧ Ready d' := by
  obtain ⟨token, henc⟩ := (encodeValue_isOk value).2 hv
  have htoken := RequestParser.feed_value (p := { d.toRequestParser with selectedId := some id })
    hd.audio hd.meter hd.limits rfl henc
  exact ⟨_, _, setValueMessage_eq henc, decodeAll_node hd token htoken,
    ready_of hd.audio hd.meter hd.limits⟩

theorem fromBe32_reportId (id port : UInt16) :
    BigEndian.fromBe32 (id >>> 8).toUInt8 id.toUInt8 (port >>> 8).toUInt8 port.toUInt8 =
      ClientOp.reportId id port := by
  apply UInt32.toNat_inj.1
  have hid := id.toNat_lt
  have hport := port.toNat_lt
  rw [BigEndian.fromBe32_toNat, ClientOp.reportId]
  simp only [UInt16.toNat_toUInt8, UInt16.toNat_shiftRight, UInt16.toNat_ofNat, UInt32.toNat_add,
    UInt32.toNat_mul, UInt16.toNat_toUInt32, Nat.shiftRight_eq_div_pow, Nat.reducePow,
    Nat.reduceMod, UInt32.toNat_ofNat] at *
  omega

theorem decodeAll_subscribe (hd : Ready d) (id port : UInt16) {meters : List Meter}
    (hlen : meters.length ≤ 512) (hv : ∀ meter ∈ meters, meter.Valid) :
    ∃ bytes d', subscribeMessage id port meters = .ok bytes ∧
      d.decodeAll bytes = .ok ([.keepAlive 3, .meterPort port,
        .meterSubscribe port (ClientOp.reportId id port) meters, .keepAlive 1], d') ∧
      Ready d' := by
  obtain ⟨hend, hbytes⟩ := meterEntries_bytes hv
  have ha0 : d.audio.length = 0 := by rw [hd.audio]; rfl
  have hbuf : d.limits.maxBufferedBytes = 65536 := by rw [hd.limits]; rfl
  have hmeters : d.limits.maxMeterEntries = 512 := by rw [hd.limits]; rfl
  have hport := RequestParser.feed_meterPort hd.meter (by omega) port
  have hdec : decodeMeterEntries (meterEntries meters) d.limits.maxMeterEntries = .ok meters :=
    decodeMeterLoop_entries none [] hv (by rw [List.length_nil]; omega)
  have hsub := RequestParser.feed_subscribe
    (p := { d.toRequestParser with meterPort := some port }) hd.meter rfl hend
    (by dsimp only; omega) hdec (id >>> 8).toUInt8 id.toUInt8 (port >>> 8).toUInt8 port.toUInt8
  rw [fromBe32_reportId] at hsub
  have hfeed := RequestParser.feed_append_eq_ok.2 ⟨[_], _, [_], hport, hsub, rfl⟩
  rw [← List.map_append] at hfeed
  exact ⟨_, _, subscribeMessage_eq hv id port, decodeAll_meter hd hfeed (flush_nil hd.meter),
    ready_of hd.audio hd.meter hd.limits⟩

theorem decodeAll_renew (hd : Ready d) (id port : UInt16) :
    ∃ d', d.decodeAll (renewMessage id port) =
      .ok ([.keepAlive 3, .meterRenew (ClientOp.reportId id port), .keepAlive 1], d') ∧
      Ready d' := by
  have hfeed : d.toRequestParser.feed
      ((0xd4 :: (BigEndian.toBe16 id ++ BigEndian.toBe16 port)).map (.data 3)) =
      .ok ([], { d.toRequestParser with
        meter := 0xd4 :: (BigEndian.toBe16 id ++ BigEndian.toBe16 port) }) := by
    refine RequestParser.feed_meter_more hd.meter ?_ fun pre hpre =>
      RequestParser.parseMeter_head hpre
    rw [hd.audio, hd.limits]
    change 5 ≤ 64 * 1024
    omega
  have hflush : { d.toRequestParser with
      meter := 0xd4 :: (BigEndian.toBe16 id ++ BigEndian.toBe16 port) }.flushMeterRenewal =
      .ok ([.meterRenew (ClientOp.reportId id port)], { d.toRequestParser with meter := [] }) := by
    rw [← fromBe32_reportId]
    rfl
  rw [renewMessage_eq]
  exact ⟨_, decodeAll_meter hd hfeed hflush, ready_of hd.audio rfl hd.limits⟩

/-- **One message.**  The server reads the message of an admissible operation as the requests the
operation stands for, and is ready for the next one. -/
theorem decodeAll_message (hd : Ready d) {op : ClientOp} (hop : op.Admissible) :
    ∃ bytes d', op.message = .ok bytes ∧ d.decodeAll bytes = .ok (op.requests, d') ∧
      Ready d' := by
  have ha := hd.audio
  cases op with
  | keepAlive =>
    refine ⟨_, _, rfl, decodeAll_select 1 (by decide) (by rw [hd.channels]; rfl)
      (flush_nil hd.meter), ready_of hd.audio hd.meter hd.limits⟩
  | requestNodeData id =>
    simp only [ClientOp.message, ClientOp.requests, requestNodeDataMessage]
    split_ifs with h0
    · exact ⟨_, _, rfl, decodeAll_root hd (by decide) (by
        simp [RequestParser.audioToken, Opcode.ofByte, atRoot, RequestParser.drainAudio, ha]),
        ready_of hd.audio hd.meter hd.limits⟩
    · exact ⟨_, _, rfl, decodeAll_nodeByte hd (by decide) (by
        simp [RequestParser.audioToken, Opcode.ofByte, RequestParser.drainAudio, ha]),
        ready_of hd.audio hd.meter hd.limits⟩
  | requestNodeDefinition id =>
    simp only [ClientOp.message, ClientOp.requests, requestNodeDefinitionMessage]
    split_ifs with h0
    · exact ⟨_, _, rfl, decodeAll_root hd (by decide) (by
        simp [RequestParser.audioToken, Opcode.ofByte, atRoot, RequestParser.drainAudio, ha]),
        ready_of hd.audio hd.meter hd.limits⟩
    · exact ⟨_, _, rfl, decodeAll_nodeByte hd (by decide) (by
        simp [RequestParser.audioToken, Opcode.ofByte, RequestParser.drainAudio, ha]),
        ready_of hd.audio hd.meter hd.limits⟩
  | setString id value =>
    exact decodeAll_setValue hd id fun s hs => by
      cases hs
      exact hop
  | setFloat id value => exact decodeAll_setValue hd id fun s hs => by cases hs
  | setInt id value => exact decodeAll_setValue hd id fun s hs => by cases hs
  | toggle id =>
    exact ⟨_, _, rfl, decodeAll_nodeByte hd (by decide) (by
      simp [RequestParser.audioToken, Opcode.ofByte, RequestParser.drainAudio, ha]),
      ready_of hd.audio hd.meter hd.limits⟩
  | requestMeter id port meters =>
    obtain ⟨hlen, hmeters⟩ := hop
    refine decodeAll_subscribe hd id port hlen fun meter hm => ?_
    obtain ⟨bytes, hb⟩ := hmeters meter hm
    rw [encodeMeter_eq] at hb
    by_contra hv
    rw [if_neg hv] at hb
    cases hb
  | keepAliveMeters id port =>
    obtain ⟨d', h, hr⟩ := decodeAll_renew hd id port
    exact ⟨_, d', rfl, h, hr⟩

/-! ### A session -/

/-- The messages of a session, in order. -/
theorem decodeAll_clientBytes (hd : Ready d) {ops : List ClientOp}
    (hops : ∀ op ∈ ops, op.Admissible) :
    ∃ bytes d', clientBytes ops = .ok bytes ∧
      d.decodeAll bytes = .ok (ops.flatMap ClientOp.requests, d') ∧ Ready d' := by
  induction ops generalizing d with
  | nil => exact ⟨[], d, rfl, rfl, hd⟩
  | cons op ops ih =>
    obtain ⟨message, d₁, hm, h₁, hd₁⟩ := decodeAll_message hd (hops op (List.mem_cons_self ..))
    obtain ⟨rest, d₂, hr, h₂, hd₂⟩ := ih hd₁ fun o ho => hops o (List.mem_cons_of_mem _ ho)
    refine ⟨message ++ rest, d₂, ?_, ?_, hd₂⟩
    · simp only [clientBytes, hm, hr, bind, Except.bind]
      rfl
    · rw [List.flatMap_cons]
      exact decodeAll_append.2 ⟨_, d₁, _, h₁, h₂, rfl⟩

/-- The handshake of a new session. -/
theorem decodeAll_handshake :
    ∃ d', (new .default).decodeAll handshake = .ok ([.keepAlive 1], d') ∧ Ready d' :=
  ⟨_, decodeAll_select 1 (by decide) rfl (flush_nil rfl), ready_of rfl rfl rfl⟩

/-- **Client and server agree.**  The messages of any sequence of admissible operations exist, and
in every fragmentation whose fragments stay below the ceiling on requests a server with the default
limits accepts every fragment and reads the handshake followed by the requests of the operations,
in order. -/
theorem pushAll_clientBytes (ops : List ClientOp) (hops : ∀ op ∈ ops, op.Admissible) :
    ∃ bytes, clientBytes ops = .ok bytes ∧
      ∀ fragments : List (List UInt8), fragments.flatten = handshake ++ bytes →
        FragmentsWithin 4096 (new .default) fragments →
        ∃ rss d', (new .default).pushAll fragments = some (rss, d') ∧
          rss.flatten = .keepAlive 1 :: ops.flatMap ClientOp.requests := by
  obtain ⟨d₀, h₀, hd₀⟩ := decodeAll_handshake
  obtain ⟨bytes, d₁, hbytes, h₁, -⟩ := decodeAll_clientBytes hd₀ hops
  refine ⟨bytes, hbytes, fun fragments hflat hwithin => ?_⟩
  have hall : (new .default).decodeAll fragments.flatten =
      .ok (.keepAlive 1 :: ops.flatMap ClientOp.requests, d₁) := by
    rw [hflat]
    exact decodeAll_append.2 ⟨_, d₀, _, h₀, h₁, rfl⟩
  obtain ⟨rss, hpush, hrss⟩ := pushAll_of_within hall hwithin
  exact ⟨rss, d₁, hpush, hrss⟩

/-- A renewal of a report whose id holds the escape byte, then a toggle, cut inside the escapes. -/
theorem pushAll_renew_toggle :
    ∃ rss d', (new .default).pushAll
        [[0xdf, 0xd1, 0xdf, 0xd3, 0xd4, 0xdf], [0xde, 0xdc, 0, 7, 0xdf],
          [0xd1, 0xd7, 0, 0, 0, 0xdf, 0xde], [0xd8]] = some (rss, d') ∧
      rss.flatten = [.keepAlive 1, .keepAlive 3, .meterRenew 0xdfdc0007, .keepAlive 1,
        .toggle 0xdf] := by
  obtain ⟨bytes, hbytes, h⟩ := pushAll_clientBytes [.keepAliveMeters 0xdfdc 7, .toggle 0xdf]
    (by simp [ClientOp.Admissible])
  have hb : clientBytes [.keepAliveMeters 0xdfdc 7, .toggle 0xdf] =
      .ok [0xdf, 0xd3, 0xd4, 0xdf, 0xde, 0xdc, 0, 7, 0xdf, 0xd1, 0xd7, 0, 0, 0, 0xdf, 0xde,
        0xd8] := by
    decide +kernel
  cases hb.symm.trans hbytes
  refine h _ rfl ?_
  have hall : (new .default).decodeAll
      [[0xdf, 0xd1, 0xdf, 0xd3, 0xd4, 0xdf], [0xde, 0xdc, 0, 7, 0xdf],
        [0xd1, 0xd7, 0, 0, 0, 0xdf, 0xde], [0xd8]].flatten =
      .ok ([.keepAlive 1, .keepAlive 3, .meterRenew 0xdfdc0007, .keepAlive 1, .toggle 0xdf],
        { toRequestParser := { (new .default).toRequestParser with selectedId := some 0xdf }
          channels := .on 1 }) := by
    decide +kernel
  exact fragmentsWithin_of_le hall (by decide)

end NativeRequestDecoder

end LibWing
