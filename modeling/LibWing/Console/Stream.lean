import LibWing.Console.Main
import LibWing.Lib.Stateful

/-!
# The logical stream of a console

What a reader will see is fixed by the bytes that are still to come, wherever they are: to be
replayed, queued as events, in the receive buffer or in the transport.  `Console.logical` is that
stream, independent of how the transport cuts it.

* `rawSymbols`, `decodeSymbols` : the stream of a transport, bytes and failures in order, before
  and after the channel framing;
* `Failure` : how taking a byte off a stream may fail;
* `decodeNext_spec` : `decode_next` takes the head off the logical stream, or fails in one of these
  ways and changes nothing else the reader depends on.
-/

namespace LibWing

open Stateful

/-- The environment of an undisturbed session: no reconnect, and writes succeed. -/
structure World.Calm (w : World) : Prop where
  /-- No reconnect is announced. -/
  reconnecting : ∀ n, w.reconnecting n = false
  /-- No write fails. -/
  write : ∀ n, w.write n = .ok ()

/-- An undisturbed session whose clock advances each time it is read. -/
def World.steady : World where
  now n := n
  reconnecting _ := false
  write _ := .ok ()

theorem World.steady_calm : World.steady.Calm := ⟨fun _ => rfl, fun _ => rfl⟩

/-! ### Streams of bytes and failures -/

/-- What a turn of the transport adds to the stream. -/
def Poll.symbols : Poll → List (Except Error UInt8)
  | .armFailed kind => [.error (.io kind)]
  | .read (.ok []) => [.error .connectionError]
  | .read (.ok bytes) => bytes.map .ok
  | .read (.error kind) => if kind.isBlocking then [] else [.error (.io kind)]

/-- The stream of a transport. -/
def rawSymbols (rsock : List Poll) : List (Except Error UInt8) := rsock.flatMap Poll.symbols

/-- The Audio Engine bytes among events. -/
def audioBytes : List ChannelEvent → List (Except Error Decoded)
  | [] => []
  | .data channel value :: events =>
    if channel = audioEngineChannel then .ok (1, value) :: audioBytes events else audioBytes events
  | .selected _ :: events => audioBytes events

/-- The stream behind the channel framing. -/
def decodeSymbols (d : ChannelDecoder) : List (Except Error UInt8) → List (Except Error Decoded)
  | [] => []
  | .error e :: rest => .error e :: decodeSymbols d rest
  | .ok byte :: rest =>
    match d.pushByte byte with
    | (.error e, d') => .error e :: decodeSymbols d' rest
    | (.ok events, d') => audioBytes (ChannelDecoder.flatten events) ++ decodeSymbols d' rest

theorem decodeSymbols_error {d : ChannelDecoder} {byte : UInt8} {e : Error}
    (h : (d.pushByte byte).1 = .error e) (rest : List (Except Error UInt8)) :
    decodeSymbols d (.ok byte :: rest) = .error e :: decodeSymbols (d.pushByte byte).2 rest := by
  rw [decodeSymbols]
  split
  · rename_i e' d' hd
    rw [hd] at h ⊢
    cases h
    rfl
  · rename_i events d' hd
    rw [hd] at h
    cases h

theorem decodeSymbols_ok {d : ChannelDecoder} {byte : UInt8}
    {events : Option ChannelEvent × Option ChannelEvent}
    (h : (d.pushByte byte).1 = .ok events) (rest : List (Except Error UInt8)) :
    decodeSymbols d (.ok byte :: rest) =
      audioBytes (ChannelDecoder.flatten events) ++ decodeSymbols (d.pushByte byte).2 rest := by
  rw [decodeSymbols]
  split
  · rename_i e' d' hd
    rw [hd] at h
    cases h
  · rename_i events' d' hd
    rw [hd] at h ⊢
    cases h
    rfl

theorem audioBytes_append (a b : List ChannelEvent) :
    audioBytes (a ++ b) = audioBytes a ++ audioBytes b := by
  induction a with
  | nil => rfl
  | cons event events ih =>
    cases event with
    | selected channel => exact ih
    | data channel value =>
      simp only [List.cons_append, audioBytes, ih]
      split_ifs <;> rfl

theorem audioBytes_popAudio (events : List ChannelEvent) :
    audioBytes events = match Console.popAudio events with
      | (some value, rest) => .ok (1, value) :: audioBytes rest
      | (none, _) => [] := by
  induction events with
  | nil => rfl
  | cons event events ih =>
    cases event with
    | selected channel => simpa only [audioBytes, Console.popAudio] using ih
    | data channel value =>
      simp only [audioBytes, Console.popAudio]
      split_ifs
      · rfl
      · exact ih

theorem popAudio_none {events rest : List ChannelEvent}
    (h : Console.popAudio events = (none, rest)) : rest = [] := by
  induction events with
  | nil =>
    cases h
    rfl
  | cons event events ih =>
    cases event with
    | selected channel => exact ih h
    | data channel value =>
      simp only [Console.popAudio] at h
      split_ifs at h
      · cases h
      · exact ih h

namespace Console

/-- The bytes and failures still to come from the transport and the receive buffer. -/
def unread (c : Console) : List (Except Error UInt8) :=
  c.main.rxBuf.map .ok ++ rawSymbols c.rsock

/-- The logical stream: replayed bytes, queued events, and what is still to be decoded. -/
def logical (c : Console) : List (Except Error Decoded) :=
  c.main.replay.map .ok ++ (audioBytes c.main.rxEvents ++ decodeSymbols c.main.rxChannels c.unread)

/-! ### How taking a byte fails -/

/-- How taking the head off the stream `before` may fail, leaving `after`, with the deadline
`deadline` in force. -/
inductive Failure (w : World) (deadline : Option Time) {α : Type}
    (before after : List (Except Error α)) : Error → Prop
  /-- The deadline passed; nothing was taken. -/
  | timeout (hd : deadline ≠ none) (h : after = before) : Failure w deadline before after .timeout
  /-- The session was disturbed. -/
  | fault {e : Error} (hw : ¬ w.Calm) (he : e ≠ .timeout) : Failure w deadline before after e
  /-- A failure that is part of the stream. -/
  | stream {e : Error} (he : e ≠ .timeout) (h : before = .error e :: after) :
      Failure w deadline before after e
  /-- The stream has ended. -/
  | ended (h : before = []) (h' : after = []) : Failure w deadline before after .connectionError

/-- A failure to get new bytes is a failure of the stream behind the framing. -/
theorem Failure.decodeSymbols {w : World} {deadline : Option Time}
    {before after : List (Except Error UInt8)} {e : Error} (d : ChannelDecoder)
    (h : Failure w deadline before after e) :
    Failure w deadline (LibWing.decodeSymbols d before) (LibWing.decodeSymbols d after) e := by
  cases h with
  | timeout hd h => exact .timeout hd (by rw [h])
  | fault hw he => exact .fault hw he
  | stream he h => exact .stream he (by rw [h, LibWing.decodeSymbols])
  | ended h h' => exact .ended (by rw [h]; rfl) (by rw [h']; rfl)

/-- Everything the reader depends on but its position in the stream. -/
structure SameFrame (c c' : Console) : Prop where
  /-- The queue is the same. -/
  pending : c'.main.pending = c.main.pending
  /-- The node is the same. -/
  currentNodeId : c'.main.currentNodeId = c.main.currentNodeId
  /-- The deadline is the same. -/
  opDeadline : c'.main.opDeadline = c.main.opDeadline
  /-- The capture is the same. -/
  capture : c'.main.capture = c.main.capture
  /-- The stream is as tainted as before. -/
  streamTainted : c'.streamTainted = c.streamTainted

theorem SameFrame.trans {c c₁ c₂ : Console} (h : SameFrame c c₁) (h' : SameFrame c₁ c₂) :
    SameFrame c c₂ :=
  ⟨h'.pending.trans h.pending, h'.currentNodeId.trans h.currentNodeId,
    h'.opDeadline.trans h.opDeadline, h'.capture.trans h.capture,
    h'.streamTainted.trans h.streamTainted⟩

/-- The parser state behind the framing is unchanged. -/
structure SameParser (c c' : Console) : Prop extends SameFrame c c' where
  /-- What is to be replayed is the same. -/
  replay : c'.main.replay = c.main.replay
  /-- The events that wait are the same. -/
  rxEvents : c'.main.rxEvents = c.main.rxEvents
  /-- The framing is where it was. -/
  rxChannels : c'.main.rxChannels = c.main.rxChannels
  /-- What was consumed is the same. -/
  readCapture : c'.main.readCapture = c.main.readCapture

theorem SameParser.trans {c c₁ c₂ : Console} (h : SameParser c c₁) (h' : SameParser c₁ c₂) :
    SameParser c c₂ :=
  { toSameFrame := h.toSameFrame.trans h'.toSameFrame
    replay := h'.replay.trans h.replay
    rxEvents := h'.rxEvents.trans h.rxEvents
    rxChannels := h'.rxChannels.trans h.rxChannels
    readCapture := h'.readCapture.trans h.readCapture }

/-- Only the clock, the keepalive timer and the writing half have moved. -/
structure Ticked (c c' : Console) : Prop extends SameParser c c' where
  /-- The receive buffer is the same. -/
  rxBuf : c'.main.rxBuf = c.main.rxBuf
  /-- The transport is the same. -/
  rsock : c'.rsock = c.rsock

theorem Ticked.refl (c : Console) : Ticked c c :=
  ⟨⟨⟨rfl, rfl, rfl, rfl, rfl⟩, rfl, rfl, rfl, rfl⟩, rfl, rfl⟩

theorem Ticked.trans {c c₁ c₂ : Console} (h : Ticked c c₁) (h' : Ticked c₁ c₂) : Ticked c c₂ :=
  ⟨h.toSameParser.trans h'.toSameParser, h'.rxBuf.trans h.rxBuf, h'.rsock.trans h.rsock⟩

theorem Ticked.unread {c c' : Console} (h : Ticked c c') : c'.unread = c.unread := by
  rw [Console.unread, Console.unread, h.rxBuf, h.rsock]

theorem Ticked.weight {c c' : Console} (h : Ticked c c') : c'.weight = c.weight := by
  rw [Console.weight, Console.weight, h.rxBuf, h.rsock]

/-! ### The environment -/

variable {w : World} {c c' : Console}

theorem instantNow_spec : Triple (Ticked c) (instantNow w) (fun _ c' => Ticked c c')
    (fun _ _ => False) :=
  fun _ h => h.trans ⟨⟨⟨rfl, rfl, rfl, rfl, rfl⟩, rfl, rfl, rfl, rfl⟩, rfl, rfl⟩

theorem writeAll_spec (bytes : List UInt8) : Triple (Ticked c) (writeAll w bytes)
    (fun _ c' => Ticked c c') (fun e c' => Ticked c c' ∧ ¬ w.Calm ∧ e ≠ .timeout) := by
  intro s h
  unfold writeAll
  cases hw : w.write s.tick with
  | ok u => exact h.trans ⟨⟨⟨rfl, rfl, rfl, rfl, rfl⟩, rfl, rfl, rfl, rfl⟩, rfl, rfl⟩
  | error kind =>
    refine ⟨h.trans ⟨⟨⟨rfl, rfl, rfl, rfl, rfl⟩, rfl, rfl, rfl, rfl⟩, rfl, rfl⟩, fun hcalm => ?_,
      Error.noConfusion⟩
    rw [hcalm.write] at hw
    cases hw

theorem keepAlive_spec : Triple (Ticked c) (keepAlive w) (fun _ c' => Ticked c c')
    (fun e c' => Ticked c c' ∧ ¬ w.Calm ∧ e ≠ .timeout) := by
  refine Triple.bind (instantNow_spec.conseq (fun _ h => h) (fun _ _ h => h)
    (fun _ _ h => h.elim)) fun now => ?_
  refine Triple.bind (Q := fun _ c' => Ticked c c') (fun s h => h) fun s => ?_
  split_ifs with hdue
  · refine Triple.bind (writeAll_spec _) fun _ => ?_
    refine Triple.bind (instantNow_spec.conseq (fun _ h => h) (fun _ _ h => h)
      (fun _ _ h => h.elim)) fun now => ?_
    exact fun s h => h.trans ⟨⟨⟨rfl, rfl, rfl, rfl, rfl⟩, rfl, rfl, rfl, rfl⟩, rfl, rfl⟩
  · exact Triple.pure fun _ h => h

theorem checkDeadline_spec : Triple (Ticked c) (checkDeadline w) (fun _ c' => Ticked c c')
    (fun e c' => Ticked c c' ∧ c.main.opDeadline ≠ none ∧ e = .timeout) := by
  refine Triple.bind (Q := fun s c' => Ticked c c' ∧ s.main.opDeadline = c.main.opDeadline)
    (fun s h => ⟨h, h.opDeadline⟩) fun s => ?_
  cases hd : s.main.opDeadline with
  | none => exact Triple.pure fun _ h => h.1
  | some deadline =>
    refine Triple.bind (Q := fun _ c' => Ticked c c' ∧ c.main.opDeadline ≠ none) ?_ fun now => ?_
    · refine fun s' h => ⟨h.1.trans ⟨⟨⟨rfl, rfl, rfl, rfl, rfl⟩, rfl, rfl, rfl, rfl⟩, rfl, rfl⟩, ?_⟩
      rw [← h.2]
      exact Option.some_ne_none _
    · split_ifs
      · exact Triple.throw fun _ h => ⟨h.1, h.2, rfl⟩
      · exact Triple.pure fun _ h => h.1

theorem socketTimeout_spec : Triple (Ticked c) (socketTimeout w) (fun _ c' => Ticked c c')
    (fun _ _ => False) := by
  refine Triple.bind instantNow_spec fun now => ?_
  refine Triple.bind (Q := fun _ c' => Ticked c c') (fun s h => h) fun s => ?_
  cases hd : s.main.opDeadline with
  | none =>
    simp only [hd]
    exact Triple.pure fun _ h => h
  | some deadline =>
    simp only [hd]
    exact Triple.bind instantNow_spec fun _ => Triple.pure fun _ h => h

theorem pollTransport_spec (deadline : Option Time) (timeout : Time) :
    Triple (Ticked c) (pollTransport timeout)
      (fun bytes c' => SameParser c c' ∧ c'.main.rxBuf = c.main.rxBuf ∧
        rawSymbols c.rsock = (bytes.getD []).map .ok ++ rawSymbols c'.rsock ∧ bytes ≠ some [] ∧
        (bytes.getD []).length + (c'.rsock.map Poll.weight).sum < (c.rsock.map Poll.weight).sum)
      (fun e c' => SameParser c c' ∧ c'.main.rxBuf = c.main.rxBuf ∧
        Failure w deadline (rawSymbols c.rsock) (rawSymbols c'.rsock) e) := by
  intro s h
  have hs : SameParser c { s with rsockTimeout := timeout } :=
    h.toSameParser.trans ⟨⟨rfl, rfl, rfl, rfl, rfl⟩, rfl, rfl, rfl, rfl⟩
  have hrest : ∀ rest, SameParser c { s with rsockTimeout := timeout, rsock := rest } := fun rest =>
    hs.trans ⟨⟨rfl, rfl, rfl, rfl, rfl⟩, rfl, rfl, rfl, rfl⟩
  rw [← h.rsock]
  unfold pollTransport
  cases hr : s.rsock with
  | nil => exact ⟨hrest [], h.rxBuf, .ended rfl rfl⟩
  | cons poll rest =>
    -- The turn is the head of the script, and its symbols are the head of the stream.
    have hsym : rawSymbols (poll :: rest) = poll.symbols ++ rawSymbols rest :=
      List.flatMap_cons
    have hsum : ((poll :: rest).map Poll.weight).sum = poll.weight + (rest.map Poll.weight).sum :=
      List.sum_cons
    rw [hsym, hsum]
    rcases poll with kind | ⟨kind | _ | ⟨byte, bytes⟩⟩
    · exact ⟨hrest rest, h.rxBuf, .stream Error.noConfusion rfl⟩
    · by_cases hb : kind.isBlocking
      · simp only [hb, ↓reduceIte, Poll.symbols]
        exact ⟨hrest rest, h.rxBuf, rfl, by simp, by simp [Poll.weight]⟩
      · simp only [hb, Poll.symbols]
        exact ⟨hrest rest, h.rxBuf, .stream Error.noConfusion rfl⟩
    · exact ⟨hrest rest, h.rxBuf, .stream Error.noConfusion rfl⟩
    · refine ⟨hrest rest, h.rxBuf, rfl, by simp, ?_⟩
      simp only [Option.getD_some, Poll.weight]
      omega

/-- The receive buffer is refilled with the head of the stream, or the transport is to be tried
again. -/
theorem refill_spec (hbuf : c.main.rxBuf = []) :
    Triple (Ticked c) (refill w)
      (fun more c' => SameParser c c' ∧ c'.unread = c.unread ∧ c'.weight < c.weight ∧
        (more → c'.main.rxBuf ≠ []))
      (fun e c' => SameParser c c' ∧
        Failure w c.main.opDeadline c.unread c'.unread e) := by
  have hunread : c.unread = rawSymbols c.rsock := by rw [Console.unread, hbuf]; rfl
  have hfault : ∀ e c', Ticked c c' ∧ ¬ w.Calm ∧ e ≠ .timeout → SameParser c c' ∧
      Failure w c.main.opDeadline c.unread c'.unread e :=
    fun e c' ⟨h, hw, he⟩ => ⟨h.toSameParser, .fault hw he⟩
  have hlate : ∀ e c', Ticked c c' ∧ c.main.opDeadline ≠ none ∧ e = .timeout → SameParser c c' ∧
      Failure w c.main.opDeadline c.unread c'.unread e := by
    rintro e c' ⟨h, hd, rfl⟩
    exact ⟨h.toSameParser, .timeout hd h.unread⟩
  refine Triple.bind (keepAlive_spec.conseq (fun _ h => h) (fun _ _ h => h) hfault) fun _ => ?_
  refine Triple.bind (checkDeadline_spec.conseq (fun _ h => h) (fun _ _ h => h) hlate) fun _ => ?_
  refine Triple.bind (socketTimeout_spec.conseq (fun _ h => h) (fun _ _ h => h)
    fun _ _ h => h.elim) fun timeout => ?_
  refine Triple.bind ((pollTransport_spec (w := w) c.main.opDeadline timeout).conseq
    (fun _ h => h) (fun _ _ h => h) fun e c' h => ?_) fun bytes => ?_
  · obtain ⟨hp, hb, hf⟩ := h
    refine ⟨hp, ?_⟩
    rw [Console.unread, Console.unread, hb, hbuf]
    exact hf
  · cases bytes with
    | some bytes =>
      refine fun s h => ?_
      obtain ⟨hp, hb, hsym, hne, hlt⟩ := h
      refine ⟨hp.trans ⟨⟨rfl, rfl, rfl, rfl, rfl⟩, rfl, rfl, rfl, rfl⟩, ?_, ?_, fun _ h => ?_⟩
      · rw [hunread, hsym]
        rfl
      · simp only [Console.weight, hbuf]
        exact (Nat.zero_add _).symm ▸ hlt
      · exact hne (congrArg some h)
    | none =>
      refine Triple.bind (Q := fun _ c' => SameParser c c' ∧ c'.unread = c.unread ∧
        c'.weight < c.weight) ?_ fun _ => Triple.pure fun _ h => ⟨h.1, h.2.1, h.2.2, ?_⟩
      · refine fun s h => ?_
        obtain ⟨hp, hb, hsym, -, hlt⟩ := h
        have hs : s.unread = c.unread := by
          rw [hunread, hsym, Console.unread, hb, hbuf]
          rfl
        have hw : s.weight < c.weight := by
          simp only [Console.weight, hb, hbuf]
          simpa using hlt
        refine (checkDeadline_spec (c := s)).conseq (P := (· = s)) (fun _ h => h ▸ Ticked.refl s)
          (fun _ c' h => ⟨hp.trans h.toSameParser, h.unread.trans hs, h.weight ▸ hw⟩)
          (fun e c' h => ?_) s rfl
        obtain ⟨h, hd, rfl⟩ := h
        exact ⟨hp.trans h.toSameParser, .timeout (hp.opDeadline ▸ hd) (h.unread.trans hs)⟩
      · exact Bool.noConfusion

/-! ### One logical byte -/

/-- The head `decoded` was taken off the logical stream and recorded. -/
structure Took (c : Console) (decoded : Decoded) (c' : Console) : Prop where
  /-- Nothing else has changed. -/
  frame : SameFrame c c'
  /-- It is the next byte of the logical stream. -/
  logical : c.logical = .ok decoded :: c'.logical
  /-- It is recorded. -/
  readCapture : c'.main.readCapture = c.main.readCapture ++ [decoded]
  /-- There was room to record it. -/
  room : c.main.readCapture.length < maxNativeResponseBytes

/-- Taking a byte failed. -/
structure Lost (w : World) (c : Console) (e : Error) (c' : Console) : Prop where
  /-- Nothing else has changed. -/
  frame : SameFrame c c'
  /-- Nothing was recorded. -/
  readCapture : c'.main.readCapture = c.main.readCapture
  /-- The stream has failed, or its next byte was one too many. -/
  failure : Failure w c.main.opDeadline c.logical c'.logical e ∨
    -- The response is longer than any response may be.
    e = .invalidData ∧ maxNativeResponseBytes ≤ c.main.readCapture.length ∧
      ∃ decoded, c.logical = .ok decoded :: c'.logical

/-- Nothing of the logical stream was taken, but some of the transport. -/
structure Skipped (c c' : Console) : Prop where
  /-- Nothing else has changed. -/
  frame : SameFrame c c'
  /-- Nothing was consumed. -/
  readCapture : c'.main.readCapture = c.main.readCapture
  /-- The logical stream is the same. -/
  logical : c'.logical = c.logical
  /-- Something was taken in. -/
  weight : c'.weight < c.weight

/-- What a pass leaves behind. -/
def StepPost (c : Console) (r : Option Decoded) (c' : Console) : Prop :=
  match r with
  | some decoded => Took c decoded c'
  | none => Skipped c c'

/-- The same position in the same stream, perhaps held in other places. -/
structure SameStream (c c₁ : Console) : Prop where
  /-- Nothing else has changed. -/
  frame : SameFrame c c₁
  /-- Nothing was consumed. -/
  readCapture : c₁.main.readCapture = c.main.readCapture
  /-- The logical stream is the same. -/
  logical : c₁.logical = c.logical
  /-- What was taken in does not come back. -/
  weight : c₁.weight ≤ c.weight

theorem StepPost.of_sameStream {c₁ : Console} (h : SameStream c c₁) {r : Option Decoded}
    (hr : StepPost c₁ r c') : StepPost c r c' := by
  cases r with
  | some decoded =>
    exact ⟨h.frame.trans hr.frame, h.logical ▸ hr.logical, h.readCapture ▸ hr.readCapture,
      h.readCapture ▸ hr.room⟩
  | none =>
    exact ⟨h.frame.trans hr.frame, hr.readCapture.trans h.readCapture,
      hr.logical.trans h.logical, hr.weight.trans_le h.weight⟩

theorem Lost.of_sameStream {c₁ : Console} (h : SameStream c c₁) {e : Error}
    (he : Lost w c₁ e c') : Lost w c e c' := by
  refine ⟨h.frame.trans he.frame, he.readCapture.trans h.readCapture, ?_⟩
  rw [← h.frame.opDeadline, ← h.logical, ← h.readCapture]
  exact he.failure

theorem Ticked.sameStream (h : Ticked c c') : SameStream c c' := by
  refine ⟨h.toSameFrame, h.readCapture, ?_, h.weight.le⟩
  rw [Console.logical, Console.logical, h.replay, h.rxEvents, h.rxChannels, h.unread]

/-- Handing out the byte that was just taken off the stream. -/
theorem emit_spec (decoded : Decoded) :
    Triple (fun s => SameFrame c s ∧ s.main.readCapture = c.main.readCapture ∧
        c.logical = .ok decoded :: s.logical) (emit decoded)
      (fun d c' => d = decoded ∧ Took c decoded c') (Lost w c) := by
  refine fun s h => ?_
  obtain ⟨hf, hr, hl⟩ := h
  by_cases hfull : s.main.readCapture.length ≥ maxNativeResponseBytes
  · have he : emit decoded s = .error .invalidData s := by
      simp only [emit, ensureNativeResponseCapacity, bind, EStateM.bind, run_get, hfull, ↓reduceIte]
      rfl
    rw [he]
    exact ⟨hf, hr, Or.inr ⟨rfl, hr ▸ hfull, decoded, hl⟩⟩
  · have he : emit decoded s =
        .ok decoded { s with main := { s.main with readCapture := s.main.readCapture ++
          [decoded] } } := by
      simp only [emit, ensureNativeResponseCapacity, bind, EStateM.bind, run_get, hfull, ↓reduceIte]
      rfl
    rw [he]
    refine ⟨rfl, hf.trans ⟨rfl, rfl, rfl, rfl, rfl⟩, hl, ?_, hr ▸ Nat.lt_of_not_le hfull⟩
    rw [← hr]

/-- The console after the framing of `byte`, with `rest` left in the receive buffer. -/
def afterByte (c : Console) (byte : UInt8) (rest : List UInt8) : Console :=
  { c with main :=
      { c.main with rxBuf := rest, rxChannels := (c.main.rxChannels.pushByte byte).2 } }

/-- The console with `events` queued. -/
def queued (c : Console) (events : List ChannelEvent) : Console :=
  { c with main := { c.main with rxEvents := c.main.rxEvents ++ events } }

theorem takeByte_error {byte : UInt8} {rest : List UInt8} {e : Error}
    (hbuf : c.main.rxBuf = byte :: rest) (he : (c.main.rxChannels.pushByte byte).1 = .error e) :
    takeByte c = .error e (c.afterByte byte rest) := by
  simp only [takeByte, bind, EStateM.bind, run_get, hbuf, he]
  rfl

theorem takeByte_ok {byte : UInt8} {rest : List UInt8} {first second : Option ChannelEvent}
    (hbuf : c.main.rxBuf = byte :: rest)
    (he : (c.main.rxChannels.pushByte byte).1 = .ok (first, second)) :
    takeByte c = (match (popAudio first.toList).1 with
      | some value => some <$> emit (1, value)
      | none => pure none) ((c.afterByte byte rest).queued second.toList) := by
  simp only [takeByte, bind, EStateM.bind, run_get, hbuf, he]
  rfl

theorem pushByte_error {d : ChannelDecoder} {byte : UInt8} {e : Error}
    (h : (d.pushByte byte).1 = .error e) : e = .invalidData := by
  unfold ChannelDecoder.pushByte at h
  cases hc : d.channel <;> simp only [hc] at h <;> split_ifs at h <;> cases h <;> rfl

/-- The audio bytes of the first event of a byte. -/
theorem audioBytes_toList (first : Option ChannelEvent) :
    audioBytes first.toList = match (popAudio first.toList).1 with
      | some value => [.ok (1, value)]
      | none => [] := by
  rcases first with _ | channel | ⟨channel, value⟩
  · rfl
  · rfl
  · simp only [Option.toList_some, audioBytes, popAudio]
    split_ifs <;> rfl

theorem takeByte_spec (hreplay : c.main.replay = []) (hevents : c.main.rxEvents = []) :
    Triple (fun s => SameParser c s ∧ s.unread = c.unread ∧ s.weight ≤ c.weight ∧
        s.main.rxBuf ≠ []) takeByte
      (StepPost c) (Lost w c) := by
  refine fun s h => ?_
  obtain ⟨hp, hu, hwt, hne⟩ := h
  obtain ⟨byte, rest, hbuf⟩ := List.exists_cons_of_ne_nil hne
  have hunread : c.unread = .ok byte :: (s.afterByte byte rest).unread := by
    rw [← hu]
    simp only [Console.unread, afterByte, hbuf, List.map_cons, List.cons_append]
  have hlogical : c.logical = decodeSymbols s.main.rxChannels
      (.ok byte :: (s.afterByte byte rest).unread) := by
    rw [Console.logical, hreplay, hevents, hunread, hp.rxChannels]
    rfl
  have hframe : SameFrame c (s.afterByte byte rest) :=
    hp.toSameFrame.trans ⟨rfl, rfl, rfl, rfl, rfl⟩
  cases hpush : (s.main.rxChannels.pushByte byte).1 with
  | error e =>
    have hafter : (s.afterByte byte rest).logical =
        decodeSymbols (s.main.rxChannels.pushByte byte).2 (s.afterByte byte rest).unread := by
      rw [Console.logical]
      simp only [afterByte, hp.replay, hreplay, hp.rxEvents, hevents, audioBytes, List.map_nil,
        List.nil_append]
    rw [takeByte_error hbuf hpush]
    have hne : e ≠ .timeout := by
      rw [pushByte_error hpush]
      exact Error.noConfusion
    refine ⟨hframe, hp.readCapture, Or.inl (.stream hne ?_)⟩
    rw [hlogical, hafter, decodeSymbols_error hpush]
  | ok events =>
    obtain ⟨first, second⟩ := events
    have hrest : c.logical = audioBytes first.toList ++
        ((s.afterByte byte rest).queued second.toList).logical := by
      rw [hlogical, decodeSymbols_ok hpush, ChannelDecoder.flatten, audioBytes_append,
        List.append_assoc, Console.logical]
      simp only [afterByte, queued, hp.replay, hreplay, hp.rxEvents, hevents, List.map_nil,
        List.nil_append, Console.unread]
    have hframe' : SameFrame c ((s.afterByte byte rest).queued second.toList) :=
      hframe.trans ⟨rfl, rfl, rfl, rfl, rfl⟩
    rw [takeByte_ok hbuf hpush]
    rw [audioBytes_toList] at hrest
    cases hpop : (popAudio first.toList).1 with
    | some value =>
      rw [hpop] at hrest
      refine (Triple.map ((emit_spec (c := c) (w := w) (1, value)).conseq (fun _ h => h)
        (fun d c' h => ?_) fun _ _ h => h)) _ ⟨hframe', hp.readCapture, hrest⟩
      rw [h.1]
      exact h.2
    | none =>
      rw [hpop] at hrest
      refine ⟨hframe', hp.readCapture, hrest.symm, ?_⟩
      refine Nat.lt_of_lt_of_le ?_ hwt
      simp only [Console.weight, queued, afterByte, hbuf, List.length_cons]
      omega

theorem decodeBuffer_spec (hreplay : c.main.replay = []) (hevents : c.main.rxEvents = []) :
    Triple (· = c) (decodeBuffer w) (StepPost c) (Lost w c) := by
  have hnil : ∀ s, SameParser c s →
      s.logical = decodeSymbols c.main.rxChannels s.unread := fun s hp => by
    rw [Console.logical, hp.replay, hreplay, hp.rxEvents, hevents, hp.rxChannels]
    rfl
  have hself := Ticked.refl c
  refine Triple.bind_get fun s hs => ?_
  rw [hs]
  split_ifs with hbuf
  · refine Triple.bind ((refill_spec hbuf).conseq (fun _ h => h ▸ hself) (fun _ _ h => h)
      fun e c' h => ?_) fun more => ?_
    · obtain ⟨hp, hf⟩ := h
      refine ⟨hp.toSameFrame, hp.readCapture, Or.inl ?_⟩
      rw [hnil c hself.toSameParser, hnil c' hp]
      exact hf.decodeSymbols c.main.rxChannels
    · cases more with
      | true =>
        exact (takeByte_spec hreplay hevents).conseq
          (fun s h => ⟨h.1, h.2.1, h.2.2.1.le, h.2.2.2 rfl⟩) (fun _ _ h => h) fun _ _ h => h
      | false =>
        refine Triple.pure fun s h => ⟨h.1.toSameFrame, h.1.readCapture, ?_, h.2.2.1⟩
        rw [hnil s h.1, h.2.1, ← hnil c hself.toSameParser]
  · refine (takeByte_spec hreplay hevents).conseq (fun s h => ?_) (fun _ _ h => h) fun _ _ h => h
    rw [h]
    exact ⟨hself.toSameParser, rfl, le_refl _, hbuf⟩

theorem decodeEvents_spec (hreplay : c.main.replay = []) :
    Triple (· = c) (decodeEvents w) (StepPost c) (Lost w c) := by
  rintro c rfl
  have haudio := audioBytes_popAudio c.main.rxEvents
  let c₁ : Console := { c with main := { c.main with rxEvents := (popAudio c.main.rxEvents).2 } }
  have hframe : SameFrame c c₁ := ⟨rfl, rfl, rfl, rfl, rfl⟩
  have hrun : decodeEvents w c = (match (popAudio c.main.rxEvents).1 with
      | some value => some <$> emit (1, value)
      | none => decodeBuffer w) c₁ := rfl
  have hc₁ : c₁.logical = c.main.replay.map .ok ++ (audioBytes (popAudio c.main.rxEvents).2 ++
      decodeSymbols c.main.rxChannels c.unread) := rfl
  rw [hrun]
  rcases hpop : popAudio c.main.rxEvents with ⟨_ | value, events⟩
  · -- No audio byte was queued: the events are gone and the stream is the same.
    have hevents : c₁.main.rxEvents = [] := by
      change (popAudio c.main.rxEvents).2 = []
      rw [hpop]
      exact popAudio_none hpop
    have hsame : SameStream c c₁ := by
      refine ⟨hframe, rfl, ?_, le_refl _⟩
      have hnil : (popAudio c.main.rxEvents).2 = [] := hevents
      rw [hc₁, Console.logical, haudio, hnil, hpop]
      rfl
    exact (decodeBuffer_spec (c := c₁) hreplay hevents).conseq (fun _ h => h)
      (fun _ _ h => h.of_sameStream hsame) (fun _ _ h => h.of_sameStream hsame) c₁ rfl
  · rw [hpop] at haudio hc₁
    refine (Triple.map ((emit_spec (c := c) (w := w) (1, value)).conseq (fun _ h => h)
      (fun d c' h => ?_) fun _ _ h => h)) c₁ ⟨hframe, rfl, ?_⟩
    · rw [h.1]
      exact h.2
    · rw [Console.logical, haudio, hc₁, hreplay]
      rfl

/-- **One pass of the loop** takes the head off the stream, takes nothing and gets nearer to the
end of the transport's script, or fails. -/
theorem decodeStep_spec : Triple (· = c) (decodeStep w) (StepPost c) (Lost w c) := by
  refine Triple.bind (Q := fun r c' => Ticked c c' ∧ (r = true → ¬ w.Calm)) ?_ fun r => ?_
  · rintro c rfl
    refine ⟨⟨⟨⟨rfl, rfl, rfl, rfl, rfl⟩, rfl, rfl, rfl, rfl⟩, rfl, rfl⟩, fun hr hcalm => ?_⟩
    rw [hcalm.reconnecting] at hr
    cases hr
  · rintro c₁ ⟨htick, hfault⟩
    have hsame := htick.sameStream
    cases r with
    | true =>
      exact ⟨hsame.frame, hsame.readCapture, Or.inl (.fault (hfault rfl) Error.noConfusion)⟩
    | false =>
      refine Triple.bind_get (P := (· = c₁)) (fun s hs => ?_) c₁ rfl
      subst hs
      cases hreplay : s.main.replay with
      | cons decoded rest =>
        rintro c₂ rfl
        refine (Triple.map ((emit_spec (c := c) (w := w) decoded).conseq (fun _ h => h)
          (fun d c' h => ?_) fun _ _ h => h))
            { c₂ with main := { c₂.main with replay := rest } } ⟨?_, ?_, ?_⟩
        · rw [h.1]
          exact h.2
        · exact hsame.frame.trans ⟨rfl, rfl, rfl, rfl, rfl⟩
        · exact hsame.readCapture
        · rw [← hsame.logical, Console.logical, hreplay]
          rfl
      | nil =>
        exact (decodeEvents_spec (c := s) hreplay).conseq (fun _ h => h)
          (fun _ _ h => h.of_sameStream hsame) (fun _ _ h => h.of_sameStream hsame)

/-- **`decode_next_inner`** takes the head off the logical stream or fails; its fuel is never used
up. -/
theorem decodeNextInner_spec {fuel : ℕ} (hfuel : c.weight < fuel) :
    Triple (· = c) (decodeNextInner w fuel) (Took c) (Lost w c) := by
  induction fuel generalizing c with
  | zero => exact absurd hfuel (Nat.not_lt_zero _)
  | succ fuel ih =>
    refine Triple.bind decodeStep_spec fun r => ?_
    cases r with
    | some decoded => exact Triple.pure fun _ h => h
    | none =>
      refine fun c₁ h => ?_
      have hsame : SameStream c c₁ := ⟨h.frame, h.readCapture, h.logical, h.weight.le⟩
      have hlt : c₁.weight < fuel := h.weight.trans_le (Nat.le_of_lt_succ hfuel)
      exact (ih hlt).conseq (fun _ h => h)
        (fun d _ h => StepPost.of_sameStream (r := some d) hsame h)
        (fun _ _ h => h.of_sameStream hsame) c₁ rfl

/-- **`decode_next`**, outside a raw capture. -/
theorem decodeNext_spec (hcap : c.main.capture = none) :
    Triple (· = c) (decodeNext w) (Took c) (Lost w c) := by
  refine Triple.bind_get fun s hs => ?_
  subst hs
  refine Triple.bind (decodeNextInner_spec (Nat.lt_succ_self _)) fun decoded => ?_
  refine Triple.bind_get fun c₁ h => ?_
  have hnone : c₁.main.capture = none := h.frame.capture.trans hcap
  simp only [hnone]
  exact Triple.pure fun c₂ hc₂ => hc₂ ▸ h

end Console

end LibWing
