import LibWing.Client.Agreement
import LibWing.Tools.Drivers
import LibWing.Tools.Transcript

/-!
# What the drivers capture

The meter driver speaks the protocol of the client, and what the drivers and the proxy capture is
merged to the evidence of a hardware capture.

* `decodeAll_report` : a server reads the subscription and the renewal that were meant;
* `captureMeterSession_driven` : what a capture of the meters holds.
-/

namespace LibWing

namespace Wingcapture

namespace Driver

open Redact

open Proxy (offsetAt)

/-! ### The id of a report -/

theorem and_highHalf {a b : ℕ} (hb : b < 2 ^ 16) (ha : a < 2 ^ 16) :
    (2 ^ 16 * a + b) &&& (2 ^ 16 * (2 ^ 16 - 1) + 0) = 2 ^ 16 * a + 0 := by
  apply Nat.eq_of_testBit_eq
  intro i
  rw [Nat.testBit_and, Nat.testBit_two_pow_mul_add _ hb, Nat.testBit_two_pow_mul_add _ (by decide),
    Nat.testBit_two_pow_mul_add _ (by decide)]
  split_ifs with hi
  · simp
  · rw [Nat.testBit_two_pow_sub_one]
    by_cases h : i - 16 < 16
    · simp [h]
    · simp [Nat.testBit_lt_two_pow (ha.trans_le (Nat.pow_le_pow_right (by decide) (not_lt.1 h)))]

theorem reportIdOf_toNat (token port : UInt16) :
    (reportIdOf token port).toNat = token.toNat * 65536 + port.toNat := by
  have ht := token.toNat_lt
  have hp := port.toNat_lt
  have h : token.toNat <<< 16 % 2 ^ 32 = token.toNat * 2 ^ 16 := by rw [Nat.shiftLeft_eq]; omega
  simp only [reportIdOf, UInt32.toNat_or, UInt32.toNat_shiftLeft, UInt16.toNat_toUInt32,
    UInt32.toNat_ofNat]
  rw [h, BigEndian.mul_two_pow_or (by omega)]
  omega

theorem reportIdOf_eq (token port : UInt16) :
    reportIdOf token port = ClientOp.reportId token port := by
  apply UInt32.toNat_inj.1
  have ht := token.toNat_lt
  have hp := port.toNat_lt
  rw [reportIdOf_toNat, ClientOp.reportId]
  simp only [UInt32.toNat_add, UInt32.toNat_mul, UInt16.toNat_toUInt32, UInt32.toNat_ofNat]
  omega

theorem toBe32_reportIdOf (token port : UInt16) :
    BigEndian.toBe32 (reportIdOf token port) = BigEndian.toBe16 token ++ BigEndian.toBe16 port := by
  have ht := token.toNat_lt
  have hp := port.toNat_lt
  have hid := reportIdOf_toNat token port
  simp only [BigEndian.toBe32, BigEndian.toBe16, List.cons_append, List.nil_append, List.cons.injEq,
    and_true]
  refine ⟨?_, ?_, ?_, ?_⟩ <;> apply UInt8.toNat_inj.1 <;>
    simp only [UInt32.toNat_toUInt8, UInt32.toNat_shiftRight, UInt16.toNat_toUInt8,
      UInt16.toNat_shiftRight, hid, UInt32.toNat_ofNat, UInt16.toNat_ofNat,
      Nat.shiftRight_eq_div_pow,
      Nat.reducePow, Nat.reduceMod] <;> omega

/-- What identifies a report is its token. -/
theorem reportIdOf_token (token port : UInt16) :
    reportIdOf token port &&& 0xffff0000 = reportIdOf token 0 := by
  apply UInt32.toNat_inj.1
  have hand := and_highHalf port.toNat_lt token.toNat_lt
  rw [UInt32.toNat_and, reportIdOf_toNat, reportIdOf_toNat, Nat.mul_comm]
  exact hand

/-- The token of a report is the one in its first bytes. -/
theorem meterToken_of_isReport {token : UInt16} {bytes : List UInt8}
    (h : isReport token bytes = true) :
    MatrixEvidence.meterToken bytes = some (reportIdOf token 0) := by
  rcases bytes with _ | ⟨a, _ | ⟨b, _ | ⟨c, _ | ⟨e, bytes⟩⟩⟩⟩ <;>
    simp only [isReport, Bool.false_eq_true, Bool.and_eq_true, decide_eq_true_eq] at h
  obtain ⟨⟨rfl, rfl⟩, rfl⟩ := h
  rw [MatrixEvidence.meterToken]
  refine congrArg some ?_
  apply UInt32.toNat_inj.1
  rw [BigEndian.fromBe32_toNat, reportIdOf_toNat, BigEndian.fromBe16_toNat]
  simp only [UInt8.toNat_ofNat, UInt16.toNat_ofNat]
  omega

theorem length_of_isReport {token : UInt16} {bytes : List UInt8} (h : isReport token bytes = true) :
    4 ≤ bytes.length := by
  rcases bytes with _ | ⟨a, _ | ⟨b, _ | ⟨c, _ | ⟨e, bytes⟩⟩⟩⟩ <;> simp [isReport] at h ⊢

/-! ### The messages -/

variable {t : Texts} {token port : UInt16} {meter : Meter}

/-- The subscription to a report of one meter. -/
def subscribeWire (token port : UInt16) (meter : Meter) : List UInt8 :=
  [0xdf, 0xd3] ++ escapeBytes ((0xd3 :: BigEndian.toBe16 port) ++
    ((0xd4 :: (BigEndian.toBe16 token ++ BigEndian.toBe16 port)) ++ 0xdc :: meterEntries [meter] ++
      [0xde]))

theorem meterSubscribeWire_eq :
    meterSubscribeWire t port (reportIdOf token port) meter.entry =
      .ok (subscribeWire token port meter) := by
  have hchannel : ¬ (3 : UInt8) ≥ channelCount := by decide
  rw [meterSubscribeWire, encodeChannel, if_neg hchannel, appendEscaped_eq, subscribeWire,
    toBe32_reportIdOf]
  simp only [Except.mapError, meterEntries, List.flatMap_cons, List.flatMap_nil, List.append_assoc,
    List.cons_append, List.nil_append, List.append_nil]
  rfl

theorem meterRenewWire_eq :
    meterRenewWire t (reportIdOf token port) = .ok (renewMessage token port) := by
  have hchannel : ¬ (3 : UInt8) ≥ channelCount := by decide
  rw [meterRenewWire, encodeChannel, if_neg hchannel, appendEscaped_eq, renewMessage_eq,
    toBe32_reportIdOf]
  rfl

theorem subscribeMessage_eq_wire (hv : meter.Valid) :
    subscribeMessage token port [meter] = .ok (subscribeWire token port meter ++ handshake) := by
  rw [subscribeMessage_eq (by simpa using hv)]
  rfl

/-! ### What a server reads -/

section Server

open NativeRequestDecoder

variable {d : NativeRequestDecoder}

/-- The requests for a report. -/
def reportRequests (token port : UInt16) (meter : Meter) : List NativeRequest :=
  [.keepAlive 3, .meterPort port, .meterSubscribe port (reportIdOf token port) [meter],
    .keepAlive 3,
    .meterRenew (reportIdOf token port), .keepAlive 1]

/-- The requests of the meter driver. -/
def drivenRequests (port : UInt16) : List NativeRequest :=
  .keepAlive 1 :: (reportRequests 1 port (.channel 1) ++ reportRequests 2 port .rta)

theorem decodeAll_onMeter {payload : List UInt8} {rs rs' : List NativeRequest}
    {p p' : RequestParser} (hd : d.channels.escaped = false)
    (hflush : d.toRequestParser.flushMeterRenewal = .ok (rs, p))
    (hfeed : p.feed (payload.map (.data 3)) = .ok (rs', p')) :
    d.decodeAll ([0xdf, 0xd3] ++ escapeBytes payload) =
      .ok (rs ++ [.keepAlive 3] ++ rs', { toRequestParser := p', channels := .on 3 }) := by
  have hselect : d.decodeAll [0xdf, 0xd3] =
      .ok (rs ++ [.keepAlive 3], { toRequestParser := p, channels := .on 3 }) :=
    decodeAll_select 3 (by decide) hd hflush
  have hpayload : ({ toRequestParser := p, channels := .on 3 } : NativeRequestDecoder).decodeAll
      (escapeBytes payload) = .ok (rs', { toRequestParser := p', channels := .on 3 }) :=
    decodeAll_payload rfl hfeed
  exact decodeAll_append.2 ⟨_, _, _, hselect, hpayload, rfl⟩

/-- A server reads a subscription and its renewal as they were meant. -/
theorem decodeAll_report (hd : Ready d) (token port : UInt16) (hv : meter.Valid) :
    ∃ d', d.decodeAll (subscribeWire token port meter ++ renewMessage token port) =
      .ok (reportRequests token port meter, d') ∧ Ready d' := by
  have hv' : ∀ m ∈ [meter], m.Valid := by simpa using hv
  obtain ⟨hend, hbytes⟩ := meterEntries_bytes hv'
  have ha0 : d.audio.length = 0 := by rw [hd.audio]; rfl
  have hbuf : d.limits.maxBufferedBytes = 65536 := by rw [hd.limits]; rfl
  have hmeters : d.limits.maxMeterEntries = 512 := by rw [hd.limits]; rfl
  have hport := RequestParser.feed_meterPort hd.meter (by omega) port
  have hdec : decodeMeterEntries (meterEntries [meter]) d.limits.maxMeterEntries = .ok [meter] :=
    decodeMeterLoop_entries none [] hv' (by rw [List.length_nil, List.length_singleton]; omega)
  have hsub := RequestParser.feed_subscribe
    (p := { d.toRequestParser with meterPort := some port }) hd.meter rfl hend
    (by dsimp only; rw [List.length_singleton] at hbytes; omega) hdec (token >>> 8).toUInt8
    token.toUInt8 (port >>> 8).toUInt8 port.toUInt8
  rw [fromBe32_reportId, ← reportIdOf_eq] at hsub
  have hfeed := RequestParser.feed_append_eq_ok.2 ⟨[_], _, [_], hport, hsub, rfl⟩
  rw [← List.map_append] at hfeed
  have hwire := decodeAll_onMeter (by rw [hd.channels]; rfl) (flush_nil hd.meter) hfeed
  -- The renewal is complete only when the audio channel is selected behind it.
  let p : RequestParser := { d.toRequestParser with meterPort := some port }
  have hp : p.meter = [] := hd.meter
  have hrenewal : p.feed ((0xd4 :: (BigEndian.toBe16 token ++ BigEndian.toBe16 port)).map
    (.data 3)) =
      .ok ([], { p with meter := 0xd4 :: (BigEndian.toBe16 token ++ BigEndian.toBe16 port) }) := by
    refine RequestParser.feed_meter_more hp ?_ fun pre hpre => RequestParser.parseMeter_head hpre
    change d.audio.length + 5 ≤ d.limits.maxBufferedBytes
    omega
  have hflush : { p with meter := 0xd4 :: (BigEndian.toBe16 token ++ BigEndian.toBe16 port)
      }.flushMeterRenewal = .ok ([.meterRenew (reportIdOf token port)],
        { p with meter := [] }) := by
    rw [reportIdOf_eq, ← fromBe32_reportId]
    rfl
  have hrenew := decodeAll_onMeter (d := { toRequestParser := p, channels := .on 3 }) rfl
    (flush_nil hd.meter) hrenewal
  have hselect := decodeAll_select (d := { toRequestParser := { p with
    meter := 0xd4 :: (BigEndian.toBe16 token ++ BigEndian.toBe16 port) }, channels := .on 3 })
    1 (by decide) rfl hflush
  refine ⟨_, ?_, ready_of (p := { p with meter := [] }) hd.audio rfl hd.limits⟩
  rw [renewMessage_eq]
  exact decodeAll_append.2 ⟨_, _, _, hwire, decodeAll_append.2 ⟨_, _, _, hrenew, hselect, rfl⟩, rfl⟩

/-- All that the meter driver sends, behind what has been sent before. -/
theorem decodeAll_driven (hescaped : d.channels.escaped = false) (haudio : d.audio = [])
    (hmeter : d.meter = []) (hlimits : d.limits = .default) (port : UInt16) :
    ∃ d', d.decodeAll (handshake ++ (subscribeWire 1 port (.channel 1) ++ renewMessage 1 port) ++
      (subscribeWire 2 port .rta ++ renewMessage 2 port)) = .ok (drivenRequests port, d') ∧
        Ready d' := by
  have hselect : d.decodeAll handshake =
      .ok ([.keepAlive 1], { d with channels := .on 1 }) :=
    decodeAll_select 1 (by decide) hescaped (flush_nil hmeter)
  obtain ⟨d₁, hfirst, hd₁⟩ := decodeAll_report (ready_of haudio hmeter hlimits) 1 port
    (by decide : (Meter.channel 1).Valid)
  obtain ⟨d₂, hsecond, hd₂⟩ := decodeAll_report hd₁ 2 port (by decide : Meter.rta.Valid)
  exact ⟨d₂, decodeAll_append.2 ⟨_, _, _, decodeAll_append.2 ⟨_, _, _, hselect, hfirst, rfl⟩,
    hsecond, rfl⟩, hd₂⟩

end Server

/-! ### The events of a capture -/

section Session

variable {Addr Ip : Type} [DecidableEq Ip] {source : Ip} {timeout : Time} {d d' : Driving}
  {text : List Char}

/-- The first datagram of a source that is wanted, as far as it fits into the buffer. -/
structure Heard (rounds : List (Round Addr)) (source : Addr) (size : ℕ) (wanted : List UInt8 → Bool)
    (bytes : List UInt8) : Prop where
  /-- It is a report that was waited for. -/
  accepted : wanted bytes = true
  /-- It is the first such datagram of the source. -/
  first : ∃ before round after datagram, rounds = before ++ round :: after ∧
    round.received = .ok (datagram, source) ∧ bytes = datagram.take size ∧
    ∀ earlier ∈ before, ∀ datagram, earlier.received = .ok (datagram, source) →
      wanted (datagram.take size) = false

/-- A round that brings nothing that is wanted. -/
theorem Heard.cons {rounds : List (Round Addr)} {source : Addr} {size : ℕ}
    {wanted : List UInt8 → Bool} {bytes : List UInt8} {round : Round Addr}
    (h : Heard rounds source size wanted bytes)
    (hround : ∀ datagram, round.received = .ok (datagram, source) →
      wanted (datagram.take size) = false) : Heard (round :: rounds) source size wanted bytes := by
  obtain ⟨haccepted, before, last, after, datagram, rfl, hreceived, hbytes, hbefore⟩ := h
  exact ⟨haccepted, round :: before, last, after, datagram, rfl, hreceived, hbytes,
    List.forall_mem_cons.2 ⟨hround, hbefore⟩⟩

/-- The events of a driver are events of a capture, in order. -/
structure Driving.Sound (d : Driving) : Prop where
  /-- The events are valid. -/
  valid : ∀ event ∈ d.events, Valid event
  /-- They are in the order of time. -/
  sorted : (d.events.map Prod.fst).Pairwise (· ≤ ·)
  /-- None is later than now. -/
  now : ∀ event ∈ d.events, event.1 ≤ offsetAt d.now

theorem Driving.Sound.wait (h : d.Sound) (elapsed : Time) (datagrams : ℕ) :
    Driving.Sound { d with now := d.now + elapsed, datagrams := datagrams } :=
  ⟨h.valid, h.sorted, fun event he => (h.now event he).trans
    (Proxy.offsetAt_mono (Nat.le_add_right _ _))⟩

theorem Driving.Sound.note (h : d.Sound) (elapsed : Time) {channel : String} {bytes : List UInt8}
    (hchannel : channel ∈ captureChannels) (htoken : channel = "M<" → 4 ≤ bytes.length) :
    (d.note elapsed channel bytes).Sound := by
  have hlater : offsetAt d.now ≤ offsetAt (d.now + elapsed) :=
    Proxy.offsetAt_mono (Nat.le_add_right _ _)
  have hlt : offsetAt (d.now + elapsed) < 2 ^ 64 := by
    rw [offsetAt]
    omega
  refine ⟨fun event he => ?_, ?_, fun event he => ?_⟩
  · rcases List.mem_append.1 he with he | he
    · exact h.valid event he
    · obtain rfl := List.mem_singleton.1 he
      exact ⟨hlt, hchannel, htoken⟩
  · rw [Driving.note, List.map_append, List.pairwise_append]
    refine ⟨h.sorted, List.pairwise_singleton _ _, fun x hx y hy => ?_⟩
    obtain ⟨event, he, rfl⟩ := List.mem_map.1 hx
    obtain rfl := List.mem_singleton.1 hy
    exact (h.now event he).trans hlater
  · rcases List.mem_append.1 he with he | he
    · exact (h.now event he).trans hlater
    · obtain rfl := List.mem_singleton.1 he
      exact le_rfl

theorem awaitReport_eq_ok {reportId : UInt32} {rounds : List (Round Ip)} (hd : d.Sound)
    (h : awaitReport t reportId token source timeout rounds d = .ok d') :
    ∃ report, Heard rounds source reportBytes (isReport token) report ∧
      d'.events.map Prod.snd = d.events.map Prod.snd ++ [("M<", report)] ∧ d'.Sound := by
  induction rounds generalizing d with
  | nil =>
    rw [awaitReport] at h
    split_ifs at h
  | cons round rounds ih =>
    have hwait := hd.wait round.elapsed (d.datagrams + 1)
    rw [awaitReport] at h
    dsimp only at h
    split_ifs at h
    cases harmed : round.armed with
    | error kind => simp [harmed] at h
    | ok u =>
      rcases hreceived : round.received with kind | ⟨datagram, from'⟩
      · simp [harmed, hreceived] at h
      · simp only [harmed, hreceived] at h
        split_ifs at h with hreport
        · obtain ⟨rfl, htoken⟩ := hreport
          cases h
          -- The report is noted, and the loop ends.
          refine ⟨datagram.take reportBytes,
            ⟨htoken, [], round, rounds, datagram, rfl, hreceived, rfl,
            by simp⟩, by simp [Driving.note], hwait.note _ (by decide) fun _ => ?_⟩
          exact length_of_isReport htoken
        · obtain ⟨report, hheard, hevents, hsound⟩ :=
            ih (hwait.wait round.waited (d.datagrams + 1)) h
          -- A datagram that is none is not noted.
          refine ⟨report, hheard.cons fun datagram' hsame => ?_, hevents, hsound⟩
          cases hreceived.symm.trans hsame
          exact Bool.eq_false_iff.2 fun htoken => hreport ⟨rfl, htoken⟩

/-- The events of a report. -/
def reportEvents (token port : UInt16) (meter : Meter) (report : List UInt8) : List Event :=
  [("M>", subscribeWire token port meter), ("M<", report), ("M>", renewMessage token port)]

/-- The events of a capture of the meters. -/
def meterEvents (port : UInt16) (first second : List UInt8) : List Event :=
  ("N>", handshake) ::
    (reportEvents 1 port (.channel 1) first ++ reportEvents 2 port .rta second)

theorem captureReport_eq_ok {env : ReportEnv Ip} (hd : d.Sound)
    (h : captureReport t port source timeout token meter.entry env d = .ok d') :
    ∃ report, Heard env.rounds source reportBytes (isReport token) report ∧
      d'.events.map Prod.snd = d.events.map Prod.snd ++ reportEvents token port meter report ∧
      d'.Sound := by
  simp only [captureReport, meterSubscribeWire_eq, meterRenewWire_eq, Except.bind_eq_ok,
    Except.pure_eq_ok, Except.ok.injEq, exists_eq_left'] at h
  obtain ⟨u, -, d₁, hawait, u', -, rfl⟩ := h
  -- Only what is received on the meter channel has to hold a token.
  have hother {bytes : List UInt8} : "M>" = "M<" → 4 ≤ bytes.length := fun hm =>
    absurd hm (by decide)
  obtain ⟨report, hheard, hevents, hsound⟩ :=
    awaitReport_eq_ok (hd.note env.subscribing (by decide) hother) hawait
  refine ⟨report, hheard, ?_, hsound.note _ (by decide) hother⟩
  simp only [Driving.note, List.map_append, hevents, List.map_cons, List.map_nil, reportEvents,
    List.append_assoc, List.cons_append, List.nil_append]

/-- The metadata of a capture of the meters, and of a discovery. -/
def meterHeaders : Headers :=
  v2Headers "meter_matrix_raw" "two Native meter subscriptions, token-bearing reports, and renewals"

theorem meterHeaders_complete : Complete meterHeaders where
  plain := by decide +kernel
  keys := by decide +kernel
  breaks := by decide +kernel
  version := by decide +kernel
  required := by decide +kernel

/-- What a capture of the meters holds. -/
theorem captureMeterSession_eq_ok {env : MeterEnv Ip}
    (h : captureMeterSession t source timeout env = .ok text) :
    ∃ port first second events, env.port = .ok port ∧
      Heard env.first.rounds source reportBytes (isReport 1) first ∧
      Heard env.second.rounds source reportBytes (isReport 2) second ∧
      Accepted t text events ∧ events.map Prod.snd = meterEvents port first second := by
  have hgreeting : encodeChannel 1 [] = .ok handshake := rfl
  simp only [captureMeterSession, hgreeting, Except.bind_eq_ok, Except.pure_eq_ok] at h
  obtain ⟨port, hport, greeting, hshake, u, -, d₁, hfirst, d₂, hsecond, rfl⟩ := h
  cases hshake
  -- The greeting is the first event.
  have hstart : Driving.Sound ⟨env.greeting, 0, [(0, "N>", handshake)]⟩ := by
    refine ⟨?_, List.pairwise_singleton _ _, by simp⟩
    rintro event he
    obtain rfl := List.mem_singleton.1 he
    exact ⟨by decide, by decide, by decide⟩
  obtain ⟨first, hheard, hevents, hsound⟩ :=
    @captureReport_eq_ok t 1 port (.channel 1) Ip _ source timeout _ _ _ hstart hfirst
  obtain ⟨second, hheard', hevents', hsound'⟩ :=
    @captureReport_eq_ok t 2 port .rta Ip _ source timeout _ _ _ hsound hsecond
  have hsnd : d₂.events.map Prod.snd = meterEvents port first second := by
    rw [hevents', hevents]
    rfl
  refine ⟨port, first, second, d₂.events, Except.ok_of_mapError hport, hheard, hheard', ?_, hsnd⟩
  -- There are seven events, so that their ordinals fit.
  have hlength := congrArg List.length hsnd
  rw [List.length_map] at hlength
  rw [eventsToV2_eq]
  exact accepted_unlines t meterHeaders_complete hsound'.valid hsound'.sorted
    (hlength.trans_lt (by simp [meterEvents, reportEvents]))

theorem discoveryLoop_eq_ok [DecidableEq Addr] {target : Addr} {n : ℕ} {rounds : List (Round Addr)}
    {now now' : Time} {reply : List UInt8}
    (h : discoveryLoop t target timeout n rounds now = .ok (now', reply)) :
    Heard rounds target discoveryBytes (fun _ => true) reply := by
  induction rounds generalizing n now with
  | nil =>
    cases n <;> simp [discoveryLoop] at h
  | cons round rounds ih =>
    cases n with
    | zero => simp [discoveryLoop] at h
    | succ n =>
      rw [discoveryLoop] at h
      split_ifs at h
      cases harmed : round.armed with
      | error kind => simp [harmed] at h
      | ok u =>
        rcases hreceived : round.received with kind | ⟨datagram, from'⟩
        · simp [harmed, hreceived] at h
        · simp only [harmed, hreceived] at h
          split_ifs at h with hsource
          · subst hsource
            cases h
            exact ⟨rfl, [], round, rounds, datagram, rfl, hreceived, rfl, by simp⟩
          · refine (ih h).cons fun datagram' hsame => ?_
            cases hreceived.symm.trans hsame
            exact absurd rfl hsource

def discoveryHeaders : Headers :=
  v2Headers "discovery_raw" "direct WING discovery request and reply"

theorem discoveryHeaders_complete : Complete discoveryHeaders where
  plain := by decide +kernel
  keys := by decide +kernel
  breaks := by decide +kernel
  version := by decide +kernel
  required := by decide +kernel

/-- What a capture of a discovery holds. -/
theorem captureDiscoverySession_eq_ok [DecidableEq Addr] {target : Addr}
    {sent : Except IoErrorKind Unit} {rounds : List (Round Addr)}
    (h : captureDiscoverySession t target timeout sent rounds = .ok text) :
    ∃ reply events, Heard rounds target discoveryBytes (fun _ => true) reply ∧
      Accepted t text events ∧ events.map Prod.snd = [("D>", question), ("D<", reply)] := by
  cases sent with
  | error kind => cases h
  | ok u =>
    rw [captureDiscoverySession] at h
    rcases hloop : discoveryLoop t target timeout maxDatagrams rounds 0 with e | ⟨now, reply⟩
    · simp [hloop, Except.map] at h
    · simp only [hloop, Except.map, Except.ok.injEq] at h
      refine ⟨reply, discoveryEvents now reply, discoveryLoop_eq_ok hloop, ?_, rfl⟩
      have hlt : offsetAt now < 2 ^ 64 := by
        rw [offsetAt]
        omega
      rw [← h, eventsToV2_eq]
      refine accepted_unlines t discoveryHeaders_complete ?_ ?_ (by simp [discoveryEvents])
      · intro event he
        rcases List.mem_pair.1 he with rfl | rfl
        · exact ⟨by decide, by decide, by decide⟩
        · exact ⟨hlt, by simp [captureChannels], fun hm => absurd hm (by simp)⟩
      · simp [discoveryEvents]

/-! ### A capture of the meters -/

/-- What the meter driver sends. -/
theorem outgoing_meterEvents (port : UInt16) (first second : List UInt8) :
    (outgoing (meterEvents port first second)).flatten =
      handshake ++ (subscribeWire 1 port (.channel 1) ++ renewMessage 1 port) ++
        (subscribeWire 2 port .rta ++ renewMessage 2 port) := by
  simp [outgoing, meterEvents, reportEvents]

/-- A capture of the meters: its port, and the two reports in it. -/
structure MeterCapture (t : Texts) (source : Ip) (env : MeterEnv Ip) (text : List Char)
    (port : UInt16) (first second : List UInt8) : Prop where
  /-- The port of the socket. -/
  port_eq : env.port = .ok port
  /-- The reports are the first ones of the console for each token. -/
  heardFirst : Heard env.first.rounds source reportBytes (isReport 1) first
  /-- The report of the second meter. -/
  heardSecond : Heard env.second.rounds source reportBytes (isReport 2) second
  /-- The capture is accepted, and holds what was sent and received, in order. -/
  accepted : ∃ summary, parseCaptureStructure t text = .ok summary ∧ summary.eventCount = 7
  /-- The text is read back as these events. -/
  contract : contractEvents t text = .ok (meterEvents port first second)
  /-- The client subscribes in the same way, but goes back to the audio channel at once. -/
  asClient : subscribeMessage 1 port [.channel 1] =
      .ok (subscribeWire 1 port (.channel 1) ++ handshake) ∧
    subscribeMessage 2 port [.rta] = .ok (subscribeWire 2 port .rta ++ handshake)
  /-- A server reads the requests that were meant, in whatever pieces it gets them. -/
  served : ∀ fragments : List (List UInt8),
    fragments.flatten = (outgoing (meterEvents port first second)).flatten →
    ∃ rss d, (NativeRequestDecoder.new .default).pushAll fragments = some (rss, d) ∧
      rss.flatten = drivenRequests port

/-- **The meter driver is a client like the library**, and what it captures of a console is a
capture that is accepted, with the first report of each of its two tokens. -/
theorem captureMeterSession_driven {env : MeterEnv Ip}
    (h : captureMeterSession t source timeout env = .ok text) :
    ∃ port first second, MeterCapture t source env text port first second := by
  obtain ⟨port, first, second, events, hport, hfirst, hsecond, ⟨hevents, summary, hparse, hcount⟩,
    hsnd⟩ := captureMeterSession_eq_ok h
  refine ⟨port, first, second, hport, hfirst, hsecond, ⟨summary, hparse, ?_⟩, ?_, ⟨?_, ?_⟩, ?_⟩
  · have hlength := congrArg List.length hsnd
    rw [List.length_map] at hlength
    rw [hcount, hlength]
    rfl
  · rw [contractEvents_eq_ok hparse hevents, hsnd]
  · exact subscribeMessage_eq_wire (by decide)
  · exact subscribeMessage_eq_wire (by decide)
  · intro fragments hflat
    -- All requests fit into one batch, however the bytes are cut.
    obtain ⟨d, hall, -⟩ := @decodeAll_driven (NativeRequestDecoder.new .default) rfl rfl
      rfl rfl port
    rw [← outgoing_meterEvents port first second, ← hflat] at hall
    have hle : (drivenRequests port).length ≤ 4096 := by simp [drivenRequests, reportRequests]
    obtain ⟨rss, hpush, hrss⟩ := NativeRequestDecoder.pushAll_of_within hall
      (NativeRequestDecoder.fragmentsWithin_of_le hall hle)
    exact ⟨rss, d, hpush, hrss⟩

/-- A round in which a datagram is received at once. -/
def Round.bring (source : Addr) (datagram : List UInt8) : Round Addr :=
  ⟨1000, .ok (), .ok (datagram, source), 1000⟩

/-- A console on host 7 reports; another host sends a report that nobody asked for. -/
def twoReports : MeterEnv ℕ where
  port := .ok 0xdfde
  greeted := .ok ()
  greeting := 1000
  first := ⟨.ok (), 1000, [.bring 8 [0, 1, 0, 0, 0xff], .bring 7 [0, 1, 0, 0, 0xe0, 0]],
    .ok (), 1000⟩
  second := ⟨.ok (), 1000, [.bring 7 [0, 1, 0, 0, 0], .bring 7 [0, 2, 0, 0, 0xe0]], .ok (), 1000⟩

theorem captureMeterSession_driven_twoReports :
    ∃ text first second, captureMeterSession plainTexts 7 1000000 twoReports = .ok text ∧
      MeterCapture plainTexts 7 twoReports text 0xdfde first second := by
  have hsome : (captureMeterSession plainTexts 7 1000000 twoReports).toOption.isSome = true := by
    decide +kernel
  cases htext : captureMeterSession plainTexts 7 1000000 twoReports with
  | error e =>
    rw [htext] at hsome
    cases hsome
  | ok text =>
    obtain ⟨port, first, second, hcapture⟩ := captureMeterSession_driven htext
    have hport : (0xdfde : UInt16) = port := Except.ok.inj hcapture.port_eq
    subst hport
    exact ⟨text, first, second, rfl, hcapture⟩

end Session

end Driver

end Wingcapture

end LibWing
