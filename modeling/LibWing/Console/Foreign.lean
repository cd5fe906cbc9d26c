import LibWing.Console.RoundTrip

/-!
# Foreign channels

The console sends other things than parameter tokens on other channels of the same stream.  Wherever
it switches to one of them and back, the reader of the Audio Engine channel does not notice.

* `Interleaved` : a stream with what other channels send inserted into it, at places where the Audio
  Engine channel is selected and no escape is open;
* `decodeSymbols_interleaved` : the logical stream is the same;
* `runCalls_interleaved` : so are the results of all reads.
-/

namespace LibWing

/-- The second stream is the first one, of which the channel decoder is in the state `d`, with what
other channels send inserted into it: at any number of places outside an escape at which the Audio
Engine channel is selected, the selection of a channel, its payload, and the selection back. -/
inductive Interleaved : ChannelDecoder → List (Except Error UInt8) →
    List (Except Error UInt8) → Prop
  | nil (d : ChannelDecoder) : Interleaved d [] []
  | byte {d : ChannelDecoder} {symbols symbols' : List (Except Error UInt8)} (byte : UInt8)
      (rest : Interleaved (d.pushByte byte).2 symbols symbols') :
      Interleaved d (.ok byte :: symbols) (.ok byte :: symbols')
  /-- A failure of the transport. -/
  | failure {d : ChannelDecoder} {symbols symbols' : List (Except Error UInt8)} (e : Error)
      (rest : Interleaved d symbols symbols') : Interleaved d (.error e :: symbols)
        (.error e :: symbols')
  | insert {d : ChannelDecoder} {symbols symbols' : List (Except Error UInt8)} {channel : UInt8}
      {payload frame back : List UInt8} (hd : d.escaped = false)
      (hselected : d.channel = some audioEngineChannel) (hchannel : channel ≠ audioEngineChannel)
      (hframe : encodeChannel channel payload = .ok frame)
      (hback : encodeChannel audioEngineChannel [] = .ok back)
      (rest : Interleaved d symbols symbols') :
      Interleaved d symbols ((frame ++ back).map .ok ++ symbols')

/-- Nothing needs to be inserted. -/
theorem Interleaved.refl (d : ChannelDecoder) (symbols : List (Except Error UInt8)) :
    Interleaved d symbols symbols := by
  induction symbols generalizing d with
  | nil => exact .nil d
  | cons symbol symbols ih =>
    cases symbol with
    | ok byte => exact .byte byte (ih _)
    | error e => exact .failure e (ih d)

/-! ### What the reader sees -/

theorem push_encodeChannel {channel : UInt8} {payload frame : List UInt8}
    (h : encodeChannel channel payload = .ok frame) {d : ChannelDecoder} (hd : d.escaped = false) :
    d.push frame = (.ok (.selected channel :: payload.map (.data channel)), .on channel) := by
  unfold encodeChannel at h
  split_ifs at h with hrange
  have hselect := ChannelDecoder.push_select channel (UInt8.not_le.mp hrange) hd
  rw [← Except.ok.inj h, appendEscaped_eq]
  exact ChannelDecoder.push_append_eq_ok.2
    ⟨_, _, _, hselect, ChannelDecoder.push_escapeBytes channel payload, rfl⟩

theorem audioBytes_foreign {channel : UInt8} (h : channel ≠ audioEngineChannel)
    (payload : List UInt8) : audioBytes (payload.map (.data channel)) = [] := by
  induction payload with
  | nil => rfl
  | cons byte payload ih => rw [List.map_cons, audioBytes, if_neg h, ih]

/-- **What other channels send is not part of the logical stream.** -/
theorem decodeSymbols_interleaved {d : ChannelDecoder}
    {symbols symbols' : List (Except Error UInt8)}
    (h : Interleaved d symbols symbols') : decodeSymbols d symbols' = decodeSymbols d symbols := by
  induction h with
  | nil => rfl
  | @byte d symbols symbols' byte rest ih =>
    cases hpush : (d.pushByte byte).1 with
    | error e => rw [decodeSymbols_error hpush, decodeSymbols_error hpush, ih]
    | ok events => rw [decodeSymbols_ok hpush, decodeSymbols_ok hpush, ih]
  | failure e rest ih => rw [decodeSymbols, decodeSymbols, ih]
  | @insert d symbols symbols' channel payload frame back hd hselected hchannel hframe
      hback rest ih =>
    have hpush := ChannelDecoder.push_append_eq_ok.2
      ⟨_, _, _, push_encodeChannel hframe hd, push_encodeChannel hback rfl, rfl⟩
    -- The decoder is back where it was.
    have hsame : d = .on audioEngineChannel := by
      rw [ChannelDecoder.on, ← hd, ← hselected]
    have haudio : audioBytes ((.selected channel :: payload.map (.data channel)) ++
        (.selected audioEngineChannel :: [].map (.data audioEngineChannel))) = [] := by
      rw [audioBytes_append, audioBytes, audioBytes_foreign hchannel]
      rfl
    rw [decodeSymbols_push_append hpush, haudio, List.nil_append, ← hsame, ih]

namespace Console

/-- **Other channels do not interfere.**  Take two transports, however they cut their streams, the
second with what other channels send inserted into the stream of the first.  In undisturbed sessions
over them as many plain reads have the same results, one by one. -/
theorem runCalls_interleaved (w w' : World) (hw : w.Calm) (hw' : w'.Calm) (now now' : Time)
    (rsock rsock' : List Poll)
    (h : Interleaved (.on audioEngineChannel) (rawSymbols rsock) (rawSymbols rsock')) (k : ℕ) :
    (runCalls w' (List.replicate k .read) (new now' rsock')).1 =
      (runCalls w (List.replicate k .read) (new now rsock)).1 := by
  rcases hrun : runCalls w (List.replicate k .read) (new now rsock) with ⟨rs, c⟩
  rcases hrun' : runCalls w' (List.replicate k .read) (new now' rsock') with ⟨rs', c'⟩
  obtain ⟨hreads, -⟩ := runCalls_reads hw _ (idle_new now rsock) hrun
  obtain ⟨hreads', -⟩ := runCalls_reads hw' _ (idle_new now' rsock') hrun'
  obtain ⟨hall, hlen⟩ := runCalls_plain hw _ (idle_new now rsock) hrun
  obtain ⟨hall', hlen'⟩ := runCalls_plain hw' _ (idle_new now' rsock') hrun'
  rw [stream_new, hall, hlen] at hreads
  rw [stream_new, hall', hlen', decodeSymbols_interleaved h, hreads] at hreads'
  exact (congrArg Prod.fst hreads').symm

/-- A payload that looks like an escape, an end and a selector, inside the node id of a value. -/
theorem runCalls_interleaved_inside :
    let rsock : List Poll := [.read (.ok [0xd7, 0, 0, 0, 7, 5, 0xde])]
    let rsock' : List Poll := [.read (.ok [0xd7, 0, 0xdf, 0xd3, 0xdf, 0xde, 0xde]),
      .read (.error .wouldBlock), .read (.ok [0xd7, 0xdf, 0xd1, 0, 0, 7, 5, 0xde])]
    (runCalls .steady (List.replicate 3 .read) (new 0 rsock')).1 =
        (runCalls .steady (List.replicate 3 .read) (new 0 rsock)).1 ∧
      (runCalls .steady (List.replicate 3 .read) (new 0 rsock)).1 =
        [.ok (.nodeData 7 (.withI32 5)), .ok .requestEnd, .error .connectionError] := by
  intro rsock rsock'
  have hchannel : (3 : UInt8) ≠ audioEngineChannel := by decide
  have hframe : encodeChannel 3 [0xdf, 0xde, 0xd7] =
      .ok [0xdf, 0xd3, 0xdf, 0xde, 0xde, 0xd7] := by decide
  have hback : encodeChannel audioEngineChannel [] = .ok [0xdf, 0xd1] := by decide
  let rest : List UInt8 := [0, 0, 7, 5, 0xde]
  have hinsert : Interleaved (.on audioEngineChannel) (rest.map .ok)
      ([0xdf, 0xd3, 0xdf, 0xde, 0xde, 0xd7, 0xdf, 0xd1].map .ok ++ rest.map .ok) :=
    .insert rfl rfl hchannel hframe hback (.refl _ _)
  have hforeign : Interleaved (.on audioEngineChannel) (rawSymbols rsock) (rawSymbols rsock') :=
    .byte 0xd7 (.byte 0 hinsert)
  refine ⟨?_, by decide +kernel⟩
  exact runCalls_interleaved .steady .steady World.steady_calm World.steady_calm 0 0 rsock rsock'
    hforeign 3

end Console

end LibWing
