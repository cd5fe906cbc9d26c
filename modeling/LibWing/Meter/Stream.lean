import LibWing.Meter.Frame
import LibWing.Session.Calls

/-!
# The meter stream

Frames arrive on a socket that every host can send to.  A reader takes the next one of the console,
and renews the subscription while it waits.

* `recvMeterFrame` : the loop that waits, and `recvMeterFrame_eq_ok`, what it returns;
* `readMetersTimeout`, `readMetersInto` : the two readers, and `readMetersInto_eq`, that they agree;
* `readMeters_decodes` : the frame of a subscription is read as the entries it was made of.

Between two rounds of a reader, other clones of the console may change the meter state.
-/

namespace LibWing

namespace MeterStream

open BigEndian

/-- `METER_FRAME_BYTES`. -/
def meterFrameBytes : ℕ := 8192

/-- `meter_samples`. -/
def meterSamples : List UInt8 → List Int16
  | a :: b :: bytes => (fromBe16 a b).toInt16 :: meterSamples bytes
  | _ => []

/-! ### Receiving -/

variable {Ip : Type} [DecidableEq Ip]

/-- What happens in a round of the loop. -/
structure Round (Ip : Type) where
  /-- What other clones have done to the meter state before. -/
  others : Session.Meters → Session.Meters
  /-- The clock of the keepalive, when it is looked at and when it is set. -/
  due : Time
  /-- The clock when the keepalive is set anew. -/
  rearmed : Time
  /-- The outcome of a renewal. -/
  write : Except IoErrorKind Unit
  /-- The clock when the deadline is looked at. -/
  now : Time
  /-- The outcome of setting the timeout of the socket. -/
  armed : Except IoErrorKind Unit
  /-- What is received, and from where. -/
  received : Except IoErrorKind (List UInt8 × Ip)

/-- The meter state of a console, and the keepalives that were written. -/
structure Feed where
  /-- The subscription. -/
  meters : Session.Meters
  /-- The renewals that were written. -/
  written : List (List UInt8)

/-- The keepalive is due again later. -/
def Feed.rearm (f : Feed) (now : Time) : Feed := { f with meters := { f.meters with
  keepAliveMetersTimer := now + seconds Session.metersKeepAliveSeconds } }

/-- `_keep_alive_meters`. -/
def Feed.keepAlive (f : Feed) (round : Round Ip) : Result Unit × Feed :=
  if f.meters.keepAliveMetersTimer ≤ round.due then
    match f.meters.port, f.meters.activeMeterId with
    | none, _ => (.error .meterNotInitialized, f)
    | some _, none => (.ok (), f.rearm round.rearmed)
    | some port, some id =>
      match round.write with
      | .error kind => (.error (.io kind), f)
      | .ok _ => (.ok (), { f with written := f.written ++ [renewMessage id port] }.rearm
          round.rearmed)
  else (.ok (), f)

/-- A datagram that is taken for a frame. -/
def isFrame (bytes : List UInt8) : Bool := 4 ≤ bytes.length && (bytes.length - 4) % 2 = 0

/-- `recv_meter_frame`, with the received part of the buffer; behind the last round, the deadline
has passed. -/
def recvMeterFrame (peer : Ip) (deadline : Time) :
    List (Round Ip) → Feed → Result (List UInt8) × Feed
  | [], f => (.error .timeout, f)
  | round :: rounds, f =>
    match Feed.keepAlive { f with meters := round.others f.meters } round with
    | (.error e, f) => (.error e, f)
    | (.ok _, f) =>
      if f.meters.port = none then (.error .meterNotInitialized, f)
      else if deadline ≤ round.now then (.error .timeout, f)
      else
        match round.armed with
        | .error kind => (.error (.io kind), f)
        | .ok _ =>
          match round.received with
          | .ok (datagram, source) =>
            let bytes := datagram.take meterFrameBytes
            if source = peer ∧ isFrame bytes = true then (.ok bytes, f)
            else recvMeterFrame peer deadline rounds f
          | .error kind =>
            if kind.isBlocking then recvMeterFrame peer deadline rounds f
            else (.error .connectionError, f)

/-- The report id in front of a frame. -/
def frameId : List UInt8 → UInt16
  | a :: b :: _ => fromBe16 a b
  | _ => 0

/-- `read_meters_timeout`. -/
def readMetersTimeout (peer : Ip) (started timeout : Time) (rounds : List (Round Ip)) (f : Feed) :
    Result (UInt16 × List Int16) × Feed :=
  match recvMeterFrame peer (started + timeout) rounds f with
  | (.error e, f) => (.error e, f)
  | (.ok bytes, f) => (.ok (frameId bytes, meterSamples (bytes.drop 4)), f)

/-- `read_meters`. -/
def readMeters (peer : Ip) (started : Time) (rounds : List (Round Ip)) (f : Feed) :
    Result (UInt16 × List Int16) × Feed :=
  readMetersTimeout peer started (seconds Session.metersKeepAliveSeconds) rounds f

/-- Some samples are written over the first slots. -/
def fill : List Int16 → List Int16 → List Int16
  | _ :: out, sample :: samples => sample :: fill out samples
  | out, _ => out

/-- `read_meters_into`, and what is in the slots behind it. -/
def readMetersInto (peer : Ip) (started : Time) (rounds : List (Round Ip)) (f : Feed)
    (out : List Int16) : Result (UInt16 × ℕ) × List Int16 × Feed :=
  match recvMeterFrame peer (started + seconds Session.metersKeepAliveSeconds) rounds f with
  | (.error e, f) => (.error e, out, f)
  | (.ok bytes, f) =>
    let samples := bytes.drop 4
    let len := samples.length / 2
    let out := if len ≤ out.length then fill out (meterSamples samples) else out
    (.ok (frameId bytes, len), out, f)

/-! ### What is received -/

variable {peer : Ip} {deadline started timeout : Time} {rounds : List (Round Ip)} {f : Feed}
  {bytes : List UInt8} {id port : UInt16} {samples words : List Int16}

/-- A frame of the console is received in a round. -/
structure Round.Brings (round : Round Ip) (peer : Ip) (bytes : List UInt8) : Prop where
  /-- The peer sent it. -/
  received : ∃ datagram, round.received = .ok (datagram, peer) ∧
    bytes = datagram.take meterFrameBytes
  /-- It is taken for a frame. -/
  frame : isFrame bytes = true

/-- The first frame of the console is what is returned, and the deadline had not passed. -/
theorem recvMeterFrame_eq_ok {f' : Feed}
    (h : recvMeterFrame peer deadline rounds f = (.ok bytes, f')) :
    ∃ before round after, rounds = before ++ round :: after ∧ round.Brings peer bytes ∧
      round.now < deadline ∧ ∀ r ∈ before, ∀ b, ¬ r.Brings peer b := by
  induction rounds generalizing f with
  | nil => cases h
  | cons round rounds ih =>
    rw [recvMeterFrame] at h
    rcases hkeep : Feed.keepAlive { f with meters := round.others f.meters } round with ⟨e | u, f₁⟩
    · rw [hkeep] at h
      cases h
    · rw [hkeep] at h
      simp only at h
      by_cases hport : f₁.meters.port = none
      · rw [if_pos hport] at h
        cases h
      rw [if_neg hport] at h
      by_cases hnow : deadline ≤ round.now
      · rw [if_pos hnow] at h
        cases h
      rw [if_neg hnow] at h
      cases harmed : round.armed with
      | error kind =>
        rw [harmed] at h
        cases h
      | ok u' =>
        rw [harmed] at h
        -- A round that brings no frame is passed over.
        have hrest : (∀ b, ¬ round.Brings peer b) →
            recvMeterFrame peer deadline rounds f₁ = (.ok bytes, f') →
            ∃ before round' after, round :: rounds = before ++ round' :: after ∧
              round'.Brings peer bytes ∧ round'.now < deadline ∧
                ∀ r ∈ before, ∀ b, ¬ r.Brings peer b := by
          intro hnone hloop
          obtain ⟨before, round', after, rfl, hbrings, hbefore, hnot⟩ := ih hloop
          exact ⟨round :: before, round', after, rfl, hbrings, hbefore,
            List.forall_mem_cons.2 ⟨hnone, hnot⟩⟩
        cases hreceived : round.received with
        | ok d =>
          obtain ⟨datagram, source⟩ := d
          rw [hreceived] at h
          simp only at h
          split_ifs at h with hframe
          · cases h
            refine ⟨[], round, rounds, rfl, ⟨⟨datagram, ?_, rfl⟩, hframe.2⟩,
              Nat.lt_of_not_le hnow, ?_⟩
            · rw [hreceived, hframe.1]
            · simp
          · refine hrest (fun b hb => hframe ?_) h
            obtain ⟨datagram', heq, rfl⟩ := hb.received
            rw [hreceived] at heq
            cases heq
            exact ⟨rfl, hb.frame⟩
        | error kind =>
          rw [hreceived] at h
          cases hblocking : kind.isBlocking with
          | false =>
            simp only [hblocking, Bool.false_eq_true, if_false] at h
            cases h
          | true =>
            simp only [hblocking, if_true] at h
            refine hrest (fun b hb => ?_) h
            obtain ⟨datagram, heq, -⟩ := hb.received
            rw [hreceived] at heq
            cases heq

/-! ### The two readers -/

theorem length_meterSamples (bytes : List UInt8) :
    (meterSamples bytes).length = bytes.length / 2 := by
  induction bytes using meterSamples.induct with
  | case1 a b bytes ih =>
    rw [meterSamples, List.length_cons, ih, List.length_cons, List.length_cons]
    omega
  | case2 bytes h =>
    rw [meterSamples]
    · cases bytes with
      | nil => rfl
      | cons a bytes =>
        cases bytes with
        | nil => simp
        | cons b bytes => exact absurd rfl (h a b bytes)
    · exact h

theorem fill_eq (h : samples.length ≤ words.length) :
    fill words samples = samples ++ words.drop samples.length := by
  induction words generalizing samples with
  | nil =>
    obtain rfl := List.eq_nil_of_length_eq_zero (Nat.le_zero.1 h)
    rfl
  | cons word words ih =>
    cases samples with
    | nil => rfl
    | cons sample samples =>
      rw [fill, ih (by simpa using h)]
      rfl

/-- **The reader without allocation agrees with the other one**: it returns the number of the
samples, and writes them if there is room for all, and none of them otherwise. -/
theorem readMetersInto_eq (peer : Ip) (started : Time) (rounds : List (Round Ip)) (f : Feed)
    (out : List Int16) :
    readMetersInto peer started rounds f out =
      match readMeters peer started rounds f with
      | (.error e, f') => (.error e, out, f')
      | (.ok (id, samples), f') =>
        (.ok (id, samples.length),
          if samples.length ≤ out.length then samples ++ out.drop samples.length else out, f') := by
  rw [readMeters, readMetersInto, readMetersTimeout]
  rcases recvMeterFrame peer (started + seconds Session.metersKeepAliveSeconds) rounds f with
    ⟨e | bytes, f'⟩
  · rfl
  · simp only [length_meterSamples]
    split_ifs with hroom
    · rw [fill_eq (by rwa [length_meterSamples]), length_meterSamples]
    · rfl

/-! ### From the entries of a subscription to the entries that are read -/

/-- The bytes of some words. -/
def wordBytes (words : List Int16) : List UInt8 := words.flatMap fun w => toBe16 w.toUInt16

/-- The frame of a report: its id, the port, and the words of its entries. -/
def frameBytes (id port : UInt16) (entries : List MeterFrameEntry) : List UInt8 :=
  toBe16 id ++ toBe16 port ++ wordBytes (entries.flatMap MeterFrameEntry.words)

@[simp] theorem length_wordBytes (words : List Int16) :
    (wordBytes words).length = 2 * words.length := by
  induction words with
  | nil => rfl
  | cons word words ih =>
    change (toBe16 word.toUInt16 ++ wordBytes words).length = _
    rw [List.length_append, ih, length_toBe16, List.length_cons]
    omega

theorem meterSamples_wordBytes (words : List Int16) : meterSamples (wordBytes words) = words := by
  induction words with
  | nil => rfl
  | cons word words ih =>
    change (fromBe16 (word.toUInt16 >>> 8).toUInt8 word.toUInt16.toUInt8).toInt16 ::
      meterSamples (wordBytes words) = _
    rw [fromBe16_toBe16, ih, Int16.toInt16_toUInt16]

/-! The words of an entry tell the entries of a family apart. -/

theorem channel_words_inj {m m' : ChannelMeter} (h : m.words = m'.words) : m = m' := by
  cases m
  cases m'
  simpa [ChannelMeter.words] using h

theorem dca_words_inj {m m' : DcaMeter} (h : m.words = m'.words) : m = m' := by
  cases m
  cases m'
  simpa [DcaMeter.words] using h

theorem fx_words_inj {m m' : FxMeter} (h : m.words = m'.words) : m = m' := by
  cases m
  cases m'
  simpa [FxMeter.words, Vector.toList_inj] using h

theorem monitor_words_inj {m m' : MonitorMeter} (h : m.words = m'.words) : m = m' := by
  cases m
  cases m'
  simpa [MonitorMeter.words] using h

theorem channelV2_words_inj {m m' : ChannelMeterV2} (h : m.words = m'.words) : m = m' := by
  cases m
  cases m'
  simpa [ChannelMeterV2.words] using h

theorem words_inj {meter : Meter} {entry entry' : MeterFrameEntry} (h : OfFamily meter entry)
    (h' : OfFamily meter entry') (hwords : entry.words = entry'.words) : entry = entry' := by
  cases h with
  | channel n m | aux n m | bus n m | main n m | matrix n m =>
    cases h'
    exact congrArg _ (channel_words_inj hwords)
  | dca n m =>
    cases h'
    exact congrArg _ (dca_words_inj hwords)
  | fx n m =>
    cases h'
    exact congrArg _ (fx_words_inj hwords)
  | source n words | output n words =>
    cases h'
    exact congrArg _ (Vector.toList_inj.1 hwords)
  | monitor m =>
    cases h'
    exact congrArg _ (monitor_words_inj hwords)
  | rta words =>
    cases h'
    exact congrArg _ hwords
  | channel2 n m | aux2 n m | bus2 n m | main2 n m | matrix2 n m =>
    cases h'
    exact congrArg _ (channelV2_words_inj hwords)

/-- An entry for a meter of a subscription: of its family, with as many words as that has. -/
structure Reports (meter : Meter) (entry : MeterFrameEntry) : Prop where
  /-- It is of the family that was asked for. -/
  family : OfFamily meter entry
  /-- It has all its words. -/
  length : entry.words.length = meterWordCount meter

variable {request : List Meter} {entries out : List MeterFrameEntry}

theorem meterEntry_words {meter : Meter} {entry : MeterFrameEntry} (h : Reports meter entry) :
    meterEntry entry.words meter = some entry := by
  obtain ⟨entry', hentry, hfamily, hwords⟩ := exists_meterEntry h.length
  rw [hentry, words_inj hfamily h.family hwords]

theorem length_words (h : List.Forall₂ Reports request entries) :
    (entries.flatMap MeterFrameEntry.words).length = (request.map meterWordCount).sum := by
  induction h with
  | nil => rfl
  | cons hentry _ ih =>
    rw [List.flatMap_cons, List.length_append, ih, hentry.length, List.map_cons, List.sum_cons]

theorem decodeFrameLoop_words (h : List.Forall₂ Reports request entries) (before : List Int16) :
    decodeFrameLoop (before ++ entries.flatMap MeterFrameEntry.words) request before.length out =
      some (out ++ entries) := by
  induction h generalizing before out with
  | nil => rw [decodeFrameLoop, List.append_nil]
  | @cons meter entry request entries hentry _ ih =>
    -- The words of the entry are where the loop has got to.
    have hslice : sliceWords (before ++ (entry :: entries).flatMap MeterFrameEntry.words)
      before.length
        (meterWordCount meter) = some entry.words := by
      rw [sliceWords, if_pos, List.drop_left, List.flatMap_cons, ← hentry.length, List.take_left]
      rw [List.length_append, List.flatMap_cons, List.length_append, hentry.length]
      omega
    have hrest := @ih (out ++ [entry]) (before ++ entry.words)
    rw [List.append_assoc, List.length_append, hentry.length, List.append_assoc,
      List.singleton_append] at hrest
    rw [decodeFrameLoop, hslice, Option.bind_eq_bind, Option.bind_some, meterEntry_words hentry,
      Option.bind_eq_bind, Option.bind_some]
    exact hrest

theorem decodeFrame_words (h : List.Forall₂ Reports request entries) :
    decodeFrame request (entries.flatMap MeterFrameEntry.words) = some (.ok entries) := by
  have hloop := @decodeFrameLoop_words request entries [] h []
  rw [List.nil_append, List.nil_append] at hloop
  rw [decodeFrame, if_neg (not_not.2 (length_words h))]
  exact congrArg (Option.map _) hloop

/-- What the two readers make of a frame of some entries. -/
structure Decodes (request : List Meter) (entries : List MeterFrameEntry) (samples : List Int16) :
    Prop where
  /-- A frame that fits is split into the entries that it was made of. -/
  fits : 4 + 2 * (request.map meterWordCount).sum ≤ meterFrameBytes →
    decodeFrame request samples = some (.ok entries)
  /-- A frame that was cut off is refused. -/
  cut : meterFrameBytes < 4 + 2 * (request.map meterWordCount).sum →
    decodeFrame request samples = some (.error ⟨(request.map meterWordCount).sum, 4094⟩)

theorem decodes_frameBytes (h : List.Forall₂ Reports request entries) :
    Decodes request entries (meterSamples
      (((frameBytes id port entries).take meterFrameBytes).drop 4)) := by
  have hdrop : ((frameBytes id port entries).take meterFrameBytes).drop 4 =
      (wordBytes (entries.flatMap MeterFrameEntry.words)).take 8188 := rfl
  refine ⟨fun hfits => ?_, fun hcut => ?_⟩
  · rw [hdrop, List.take_of_length_le, meterSamples_wordBytes, decodeFrame_words h]
    rw [length_wordBytes, length_words h]
    unfold meterFrameBytes at hfits
    omega
  · -- Behind the header, the buffer holds 4094 words.
    have hlength : (meterSamples ((wordBytes (entries.flatMap MeterFrameEntry.words)).take
      8188)).length
        = 4094 := by
      rw [length_meterSamples, List.length_take, length_wordBytes, length_words h]
      unfold meterFrameBytes at hcut
      omega
    rw [hdrop, decodeFrame, hlength, if_pos]
    unfold meterFrameBytes at hcut
    omega

/-- The console sends nothing but reports of a subscription, and what has no shape of a frame. -/
def Subscribed (peer : Ip) (request : List Meter) (rounds : List (Round Ip)) : Prop :=
  ∀ round ∈ rounds, ∀ datagram, round.received = .ok (datagram, peer) →
    isFrame (datagram.take meterFrameBytes) = true →
      ∃ id port entries, List.Forall₂ Reports request entries ∧ datagram =
        frameBytes id port entries

/-- **A report of the console is read as what it was made of**, whatever else arrives: the reader
returns the id of the first report that is received, and its samples decode to its entries, unless
it was too long for the buffer, in which case they do not decode. -/
theorem readMeters_decodes (h : Subscribed peer request rounds) {f' : Feed}
    (hread : readMetersTimeout peer started timeout rounds f = (.ok (id, samples), f')) :
    ∃ before round after port entries, rounds = before ++ round :: after ∧
      round.received = .ok (frameBytes id port entries, peer) ∧ round.now < started + timeout ∧
      (∀ r ∈ before, ∀ b, ¬ r.Brings peer b) ∧
      List.Forall₂ Reports request entries ∧ Decodes request entries samples := by
  rw [readMetersTimeout] at hread
  rcases hframe : recvMeterFrame peer (started + timeout) rounds f with ⟨e | bytes, f₁⟩
  · rw [hframe] at hread
    cases hread
  · rw [hframe] at hread
    cases hread
    obtain ⟨before, round, after, rfl, hbrings, hnow, hbefore⟩ := recvMeterFrame_eq_ok hframe
    obtain ⟨datagram, hreceived, rfl⟩ := hbrings.received
    obtain ⟨id, port, entries, hentries, rfl⟩ := h round (by simp) datagram hreceived hbrings.frame
    have hid : frameId ((frameBytes id port entries).take meterFrameBytes) = id :=
      fromBe16_toBe16 id
    rw [hid]
    exact ⟨before, round, after, port, entries, rfl, hreceived, hnow, hbefore, hentries,
      decodes_frameBytes hentries⟩

/-- A report of another host arrives first, then one of the console. -/
def intruded : List (Round String) :=
  [⟨fun m => m, 0, 0, .ok (), 0, .ok (), .ok (frameBytes 7 50000 [.dca ⟨9, 9, 9, 9⟩], "10.0.0.66")⟩,
    ⟨fun m => m, 0, 0, .ok (), millis 20, .ok (),
    .ok (frameBytes 7 50000 [.dca ⟨1, 2, -3, 4⟩], "10.0.0.2")⟩]

/-- A subscription with the id 7. -/
def subscribedFeed : Feed := ⟨⟨some 50000, some 7, 8, seconds 3⟩, []⟩

theorem readMeters_decodes_intruded :
    ∃ samples f', readMetersTimeout "10.0.0.2" 0 (seconds 3) intruded subscribedFeed =
        (.ok (7, samples), f') ∧
      ∃ before round after port entries, intruded = before ++ round :: after ∧
        round.received = .ok (frameBytes 7 port entries, "10.0.0.2") ∧ round.now < 0 + seconds 3 ∧
        (∀ r ∈ before, ∀ b, ¬ r.Brings "10.0.0.2" b) ∧
        List.Forall₂ Reports [.dca 1] entries ∧ Decodes [.dca 1] entries samples := by
  have hread : (readMetersTimeout "10.0.0.2" 0 (seconds 3) intruded subscribedFeed).1 =
      .ok (7, [1, 2, -3, 4]) := by
    decide +kernel
  have hsubscribed : Subscribed "10.0.0.2" [.dca 1] intruded := by
    intro round hround datagram hreceived _
    simp only [intruded, List.mem_cons, List.not_mem_nil, or_false] at hround
    rcases hround with rfl | rfl
    · exact absurd (Prod.mk.inj (Except.ok.inj hreceived)).2 (by decide)
    · cases hreceived
      exact ⟨7, 50000, _, .cons ⟨.dca 1 _, rfl⟩ .nil, rfl⟩
  refine ⟨_, _, Prod.ext hread rfl, readMeters_decodes hsubscribed (Prod.ext hread rfl)⟩

end MeterStream

end LibWing
