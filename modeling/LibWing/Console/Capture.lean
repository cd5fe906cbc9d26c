import LibWing.Console.Conserve
import LibWing.Console.Token
import LibWing.Console.Worlds

/-!
# Raw captures

While a raw capture is active, `decode_next` copies every logical byte it hands out.  Reading goes
on as ever underneath: what the parser rejects ends the capture.

* `Capturing` : a console in the middle of a capture and the stream it reads; what has been captured
  is what has been taken off the stream;
* `Stream.drain` : reading a stream up to the end of a reply;
* `drainLoop_capturing`, `getBinaryNode_drain` : `get_binary_node` drains the logical stream and
  returns what it has taken, unless it runs out of time or the session is disturbed.
-/

namespace LibWing

open Stateful

/-- Read responses up to the end of a reply, at most `fuel` of them. -/
def Stream.drain : ℕ → EStateM Error Stream Unit
  | 0 => throw .connectionError
  | fuel + 1 => do
    match ← source.readInner (maxNativeResponseBytes + 1) with
    | .requestEnd => return ()
    | _ => drain fuel

namespace Console

variable {w : World} {c c₀ c' : Console}

/-! ### One byte -/

/-- What a capture leaves alone. -/
structure SameCapture (c c' : Console) : Prop where
  /-- The deadline is the same. -/
  opDeadline : c'.main.opDeadline = c.main.opDeadline
  /-- The stream is as tainted as before. -/
  streamTainted : c'.streamTainted = c.streamTainted
  /-- The queue is the same. -/
  pending : c'.main.pending = c.main.pending

theorem SameCapture.trans {c₁ : Console} (h : SameCapture c₀ c) (h' : SameCapture c c₁) :
    SameCapture c₀ c₁ :=
  ⟨h'.opDeadline.trans h.opDeadline, h'.streamTainted.trans h.streamTainted,
    h'.pending.trans h.pending⟩

theorem SameFrame.sameCapture (h : SameFrame c c') : SameCapture c c' :=
  ⟨h.opDeadline, h.streamTainted, h.pending⟩

/-- The console with a capture. -/
def withCapture (c : Console) (captured : List UInt8) : Console :=
  { c with main := { c.main with capture := some captured } }

/-- **`decode_next`** in a capture: the byte it takes is captured, if there is room. -/
theorem decodeNext_capture {captured : List UInt8} (hcap : c.main.capture = some captured) :
    Triple (· = c) (decodeNext w)
      (fun decoded c' => ∃ c₁, Took c decoded c₁ ∧ captured.length < maxNativeResponseBytes ∧
        c' = c₁.withCapture (captured ++ [decoded.2]))
      (fun e c' => Lost w c e c' ∨ e = .invalidData ∧ maxNativeResponseBytes ≤ captured.length ∧
        ∃ decoded, Took c decoded c') := by
  refine Triple.bind_get fun s hs => ?_
  subst hs
  refine Triple.bind ((decodeNextInner_spec (Nat.lt_succ_self _)).conseq (fun _ h => h)
    (fun _ _ h => h) fun _ _ h => Or.inl h) fun decoded => ?_
  refine Triple.bind_get fun c₁ h => ?_
  have hsome : c₁.main.capture = some captured := h.frame.capture.trans hcap
  simp only [hsome]
  rintro c₂ rfl
  by_cases hfull : captured.length ≥ maxNativeResponseBytes
  · have hrun : (do
        ensureNativeResponseCapacity captured.length
        modifyMain fun r => { r with capture := some (captured ++ [decoded.2]) }
        pure decoded : ConsoleM Decoded) c₂ = .error .invalidData c₂ := by
      simp only [ensureNativeResponseCapacity, hfull, ↓reduceIte]
      rfl
    rw [hrun]
    exact Or.inr ⟨rfl, hfull, decoded, h⟩
  · have hrun : (do
        ensureNativeResponseCapacity captured.length
        modifyMain fun r => { r with capture := some (captured ++ [decoded.2]) }
        pure decoded : ConsoleM Decoded) c₂ =
        .ok decoded (c₂.withCapture (captured ++ [decoded.2])) := by
      simp only [ensureNativeResponseCapacity, hfull, ↓reduceIte]
      rfl
    rw [hrun]
    exact ⟨c₂, h, Nat.lt_of_not_le hfull, rfl⟩

/-- A console in a capture that began at `c₀`, and the stream it reads.  What was captured is what
was taken off the stream; the record of the current response is part of it. -/
structure Capturing (c₀ c : Console) (s : Stream) : Prop where
  /-- Nothing else of the session has changed. -/
  same : SameCapture c₀ c
  /-- It is where the logical stream is. -/
  symbols : s.symbols = c.logical
  /-- And at the same node. -/
  nodeId : s.nodeId = c.main.currentNodeId
  /-- The bytes that were taken are in the capture, and were counted. -/
  taken : ∃ taken : List Decoded, c.main.capture = some (taken.map (·.2)) ∧
    s.captured = taken.length ∧ taken.map .ok ++ c.logical = c₀.logical ∧
    c.main.readCapture.length ≤ taken.length

/-- The two after a failure that is not a timeout. -/
structure CaptureFailed (c₀ : Console) (e : Error) (c : Console) (s : Stream) : Prop where
  /-- It did not run out of time. -/
  error : e ≠ .timeout
  /-- Nothing else of the session has changed. -/
  same : SameCapture c₀ c
  /-- It is where the logical stream is. -/
  symbols : s.symbols = c.logical
  /-- And at the same node. -/
  nodeId : s.nodeId = c.main.currentNodeId

/-- A capture that was cut short. -/
structure CaptureCut (w : World) (c₀ : Console) (e : Error) (c : Console) : Prop where
  /-- Nothing else of the session has changed. -/
  same : SameCapture c₀ c
  /-- It ran out of time, or the session was disturbed. -/
  cause : e = .timeout ∨ (e ≠ .timeout ∧ ¬ w.Calm)

theorem Capturing.failed {s : Stream} {e : Error} (h : Capturing c₀ c s) (he : e ≠ .timeout) :
    CaptureFailed c₀ e c s :=
  ⟨he, h.same, h.symbols, h.nodeId⟩

theorem decodeNext_capturing :
    CancelSim (Capturing c₀) (CaptureFailed c₀) (CaptureCut w c₀) (decodeNext w) Stream.next := by
  intro s c h
  obtain ⟨taken, hcap, hcount, hlog, hrec⟩ := h.taken
  refine (decodeNext_capture (w := w) hcap).conseq (P := (· = c)) (fun _ h => h)
    (fun decoded c' ht => ?_) (fun e c' hl => ?_) c rfl
  · obtain ⟨c₁, ht, hroom, rfl⟩ := ht
    have hsym : s.symbols = .ok decoded :: c₁.logical := h.symbols.trans ht.logical
    rw [List.length_map] at hroom
    have hspace : ¬ s.captured ≥ maxNativeResponseBytes := by
      rw [hcount]
      omega
    refine ⟨{ s with symbols := c₁.logical, captured := s.captured + 1 }, ?_, ?_⟩
    · simp only [Stream.next, hsym, hspace, ↓reduceIte]
    · refine ⟨(h.same.trans ht.frame.sameCapture).trans ⟨rfl, rfl, rfl⟩, rfl,
        h.nodeId.trans ht.frame.currentNodeId.symm, taken ++ [decoded], ?_, ?_, ?_, ?_⟩
      · rw [List.map_append]
        rfl
      · rw [List.length_append, ← hcount]
        rfl
      · rw [← hlog, ht.logical, List.map_append, List.append_assoc]
        rfl
      · have hread : (c₁.withCapture (taken.map (·.2) ++ [decoded.2])).main.readCapture =
            c.main.readCapture ++ [decoded] := ht.readCapture
        rw [hread, List.length_append, List.length_append]
        exact Nat.add_le_add_right hrec _
  · rcases hl with hl | ⟨rfl, hfull, decoded, ht⟩
    · have hsame := h.same.trans hl.frame.sameCapture
      have hid : s.nodeId = c'.main.currentNodeId := h.nodeId.trans hl.frame.currentNodeId.symm
      rcases hl.failure with hfail | ⟨rfl, hfull, decoded, hsym⟩
      · cases hfail with
        | timeout hd hsame' => exact Or.inl ⟨hsame, Or.inl rfl⟩
        | fault hw he => exact Or.inl ⟨hsame, Or.inr ⟨he, hw⟩⟩
        | stream he hsym =>
          refine Or.inr ⟨{ s with symbols := c'.logical }, ?_, he, hsame, rfl, hid⟩
          simp only [Stream.next, h.symbols.trans hsym]
        | ended hnil hnil' =>
          refine Or.inr ⟨s, ?_, Error.noConfusion, hsame, ?_, hid⟩
          · simp only [Stream.next, h.symbols.trans hnil]
          · rw [h.symbols, hnil, hnil']
      · -- The current response is too long, and so is the capture.
        refine Or.inr ⟨{ s with symbols := c'.logical }, ?_, Error.noConfusion, hsame, rfl, hid⟩
        have hcapt : s.captured ≥ maxNativeResponseBytes := by
          rw [hcount]
          exact hfull.trans hrec
        simp only [Stream.next, h.symbols.trans hsym, hcapt, ↓reduceIte]
    · -- The capture is too long.
      rw [List.length_map] at hfull
      refine Or.inr ⟨{ s with symbols := c'.logical }, ?_, Error.noConfusion,
        h.same.trans ht.frame.sameCapture, rfl, h.nodeId.trans ht.frame.currentNodeId.symm⟩
      have hcapt : s.captured ≥ maxNativeResponseBytes := by
        rw [hcount]
        exact hfull
      simp only [Stream.next, h.symbols.trans ht.logical, hcapt, ↓reduceIte]

/-- The parser in a capture does what the stream's parser does, unless it is cut short. -/
theorem source_capturing (c₀ : Console) :
    Source.Related (fun {_} x y => CancelSim (Capturing c₀) (CaptureFailed c₀)
      (CaptureCut w c₀) x y)
      (source w) Stream.source where
  toCongruence := CancelSim.congruence _ _ _
  invalidData := CancelSim.throw fun _ _ h => h.failed Error.noConfusion
  decodeNext := decodeNext_capturing
  currentNodeId := fun s _ h => ⟨s, congrArg (EStateM.Result.ok · s) h.nodeId, h⟩
  setCurrentNodeId := fun id s _ h =>
    ⟨{ s with nodeId := id }, rfl, ⟨h.same.trans ⟨rfl, rfl, rfl⟩, h.symbols, rfl, h.taken⟩⟩

/-! ### One response -/

/-- How a program fails in a capture that began at `c₀`, if it does what `y` does to the stream `s`:
it ran out of time, the session was disturbed, or the stream itself failed. -/
structure Halted (w : World) (c₀ : Console) {α : Type} (y : EStateM Error Stream α) (s : Stream)
    (e : Error) (c : Console) : Prop where
  /-- Nothing else of the session has changed. -/
  same : SameCapture c₀ c
  /-- It was late, or disturbed, or failed as the stream does. -/
  cause : (e = .timeout ∧ Late w c₀ c) ∨ (Disturbance e ∧ ¬ w.Calm) ∨
    (e ≠ .timeout ∧ ∃ s', y s = .error e s' ∧ s'.symbols = c.logical)

theorem Capturing.cleared {s : Stream} (h : Capturing c₀ c s) : Capturing c₀ c.cleared s := by
  obtain ⟨taken, hcap, hcount, hlog, -⟩ := h.taken
  exact ⟨h.same.trans ⟨rfl, rfl, rfl⟩, h.symbols, h.nodeId, taken, hcap, hcount, hlog,
    Nat.zero_le _⟩

/-- A capture is at `s`, between two responses. -/
structure GoesOn (c₀ c : Console) (s : Stream) : Prop where
  /-- It captures, with nothing consumed of the next response. -/
  capturing : Capturing c₀ c.cleared s
  /-- The world has been looked at. -/
  tick : c₀.tick ≤ c.tick

theorem GoesOn.same {s : Stream} (h : GoesOn c₀ c s) : SameCapture c₀ c :=
  h.capturing.same.trans ⟨rfl, rfl, rfl⟩

/-- Looking at the world takes nothing off the stream. -/
theorem GoesOn.looked {s : Stream} (h : GoesOn c₀ c s) :
    GoesOn c₀ { c with tick := c.tick + 1 } s :=
  ⟨⟨h.capturing.same.trans ⟨rfl, rfl, rfl⟩, h.capturing.symbols, h.capturing.nodeId,
    h.capturing.taken⟩, Nat.le_succ_of_le h.tick⟩

theorem readInner_capturing (w : World) (c₀ : Console) (s : Stream) :
    Triple (fun c => Capturing c₀ c s ∧ c₀.tick ≤ c.tick) (readInner w)
      (fun r c' => ∃ s', Stream.source.readInner (maxNativeResponseBytes + 1) s = .ok r s' ∧
        Capturing c₀ c' s' ∧ c₀.tick ≤ c'.tick)
      (Halted w c₀ (Stream.source.readInner (maxNativeResponseBytes + 1)) s) := by
  rintro c ⟨hcap, htick⟩
  have hsim := (source_capturing (w := w) c₀).readInner (maxNativeResponseBytes + 1) s c hcap
  have hclock := (punctual_meets w c₀).reads.readInner c htick
  rw [readInner] at hclock ⊢
  cases hrun : (source w).readInner (maxNativeResponseBytes + 1) c with
  | ok r c' =>
    rw [hrun] at hsim hclock
    obtain ⟨s', hs, hcap'⟩ := hsim
    exact ⟨s', hs, hcap', hclock⟩
  | error e c' =>
    rw [hrun] at hsim hclock
    rcases hsim with hcut | ⟨s', hs, hf⟩
    · refine ⟨hcut.same, ?_⟩
      rcases hcut.cause with rfl | ⟨hne, hw⟩
      · exact Or.inl ⟨rfl, hclock.2 rfl⟩
      · -- Either the failure is the disturbance, or it is there without it.
        have hcalm := (unlessDisturbed_meets w).reads.readInner c c rfl
        rw [readInner, hrun] at hcalm
        rcases hcalm with hd | ⟨c₁, hrun', rfl⟩
        · exact Or.inr (Or.inl ⟨hd, hw⟩)
        · have hsim' := (source_capturing (w := w.calmed) c₀).readInner
            (maxNativeResponseBytes + 1) s c hcap
          rw [readInner] at hrun'
          rw [hrun'] at hsim'
          rcases hsim' with hcut' | ⟨s', hs, hf⟩
          · exact absurd w.calmed_calm (hcut'.cause.resolve_left hne).2
          · exact Or.inr (Or.inr ⟨hne, s', hs, hf.symbols⟩)
    · exact ⟨hf.same, Or.inr (Or.inr ⟨hf.error, s', hs, hf.symbols⟩)⟩

theorem Ticked.sameCapture (h : Ticked c c') : SameCapture c c' := h.toSameFrame.sameCapture

theorem Ticked.logical (h : Ticked c c') : c'.logical = c.logical :=
  congrArg Stream.symbols h.stream

theorem settle_capturing (id : Int32) {s : Stream} {y : EStateM Error Stream WingResponse}
    {e : Error} (h : Halted w c₀ y s e c) :
    Triple (· = c) (settle w id (.error e)) (fun _ _ => False) (Halted w c₀ y s) := by
  rintro c rfl
  by_cases he : e = .timeout
  · subst he
    rw [settle_timeout]
    refine ⟨h.same.trans ⟨rfl, rfl, rfl⟩, Or.inl ⟨rfl, ?_⟩⟩
    rcases h.cause with ⟨-, hlate⟩ | ⟨hd, -⟩ | ⟨hne, -⟩
    · exact hlate
    · cases hd
    · exact absurd rfl hne
  · rw [settle_error he]
    refine (finishRead_error (w := w) (c := c.cleared) e).conseq (P := (· = c.cleared))
      (fun _ h => h ▸ Ticked.refl _) (fun _ _ h => h) (fun e' c' hend => ?_) c.cleared rfl
    obtain ⟨htick, herr⟩ := hend
    have hsame : SameCapture c c' :=
      SameCapture.trans (c := c.cleared) ⟨rfl, rfl, rfl⟩ htick.sameCapture
    refine ⟨h.same.trans hsame, ?_⟩
    rcases herr with rfl | ⟨rfl, hw⟩
    · rcases h.cause with ⟨ht, -⟩ | hd | ⟨hne, s', hs, hsym⟩
      · exact absurd ht he
      · exact Or.inr (Or.inl hd)
      · exact Or.inr (Or.inr ⟨hne, s', hs, hsym.trans htick.logical.symm⟩)
    · exact Or.inr (Or.inl ⟨.reconnecting, hw⟩)

theorem readNew_capturing (w : World) (c₀ : Console) (s : Stream) :
    Triple (GoesOn c₀ · s) (readNew w)
      (fun r c' => ∃ s', Stream.source.readInner (maxNativeResponseBytes + 1) s = .ok r s' ∧
        GoesOn c₀ c' s')
      (Halted w c₀ (Stream.source.readInner (maxNativeResponseBytes + 1)) s) := by
  rintro c hgo
  rw [readNew_eq]
  rcases (readInner_capturing w c₀ s).outcome (s := c.cleared) ⟨hgo.capturing, hgo.tick⟩ with
    ⟨r, c₁, ho, s', hs, hcap', htick'⟩ | ⟨e, c₁, ho, hhalt⟩
  · rw [ho, settle_ok]
    exact ⟨s', hs, hcap'.cleared.cleared, htick'⟩
  · rw [ho]
    exact (settle_capturing c.main.currentNodeId hhalt).conseq (fun _ h => h)
      (fun _ _ h => h.elim) (fun _ _ h => h) c₁ rfl

/-- **`read_locked` in a capture** that has set the earlier responses aside. -/
theorem readLocked_capturing (w : World) (hp : c₀.main.pending = [])
    (ht : c₀.streamTainted = false) (s : Stream) :
    Triple (GoesOn c₀ · s) (readLocked w)
      (fun r c' => ∃ s', Stream.source.readInner (maxNativeResponseBytes + 1) s = .ok r s' ∧
        GoesOn c₀ c' s')
      (Halted w c₀ (Stream.source.readInner (maxNativeResponseBytes + 1)) s) := by
  refine Triple.bind_get fun c hgo => ?_
  rw [hgo.same.streamTainted, ht]
  refine Triple.bind (Q := fun r c' => GoesOn c₀ c' s ∧ (r = true → ¬ w.Calm)) ?_ fun r => ?_
  · rintro c rfl
    refine ⟨hgo.looked, fun hr hcalm => ?_⟩
    rw [hcalm.reconnecting] at hr
    cases hr
  · cases r with
    | true =>
      exact Triple.throw fun c' h => ⟨h.1.same, Or.inr (Or.inl ⟨.reconnecting, h.2 rfl⟩)⟩
    | false =>
      refine Triple.bind_get fun c' h => ?_
      rw [h.1.same.pending, hp]
      exact (readNew_capturing w c₀ s).conseq (fun _ hc => hc ▸ h.1) (fun _ _ h => h)
        fun _ _ h => h

/-! ### The whole reply -/

/-- What the loop of `get_binary_node` leaves behind. -/
def DrainPost (w : World) (c₀ : Console) (fuel : ℕ) (s : Stream) :
    Except Error Unit → Console → Prop
  | .ok (), c => ∃ s', Stream.drain fuel s = .ok () s' ∧ GoesOn c₀ c s'
  | .error e, c => Halted w c₀ (Stream.drain fuel) s e c

theorem Stream.drain_end {fuel : ℕ} {s s' : Stream}
    (h : Stream.source.readInner (maxNativeResponseBytes + 1) s = .ok .requestEnd s') :
    Stream.drain (fuel + 1) s = .ok () s' := by
  simp only [Stream.drain, bind, EStateM.bind, h]
  rfl

theorem Stream.drain_more {fuel : ℕ} {s s' : Stream} {r : WingResponse}
    (h : Stream.source.readInner (maxNativeResponseBytes + 1) s = .ok r s') (hr : r ≠ .requestEnd) :
    Stream.drain (fuel + 1) s = Stream.drain fuel s' := by
  cases r with
  | requestEnd => exact absurd rfl hr
  | nodeDef d => simp only [Stream.drain, bind, EStateM.bind, h]
  | nodeData id data => simp only [Stream.drain, bind, EStateM.bind, h]

theorem Stream.drain_error {fuel : ℕ} {s s' : Stream} {e : Error}
    (h : Stream.source.readInner (maxNativeResponseBytes + 1) s = .error e s') :
    Stream.drain (fuel + 1) s = .error e s' := by
  simp only [Stream.drain, bind, EStateM.bind, h]

/-- **The loop of `get_binary_node` drains the stream.** -/
theorem drainLoop_capturing (hp : c₀.main.pending = []) (ht : c₀.streamTainted = false)
    {deadline : Time} (hd : c₀.main.opDeadline = some deadline) (fuel : ℕ) (s : Stream) :
    Triple (GoesOn c₀ · s) (drainLoop w deadline fuel) (DrainPost w c₀ fuel s)
      (fun _ _ => False) := by
  induction fuel generalizing s with
  | zero =>
    exact Triple.pure fun c h => ⟨h.same,
      Or.inr (Or.inr ⟨Error.noConfusion, s, rfl, h.capturing.symbols⟩)⟩
  | succ fuel ih =>
    refine Triple.bind_attempt (readLocked_capturing w hp ht s) (fun r => ?_) fun e => ?_
    · by_cases hr : r = .requestEnd
      · subst hr
        exact Triple.pure fun c ⟨s', hs, hgo⟩ => ⟨s', Stream.drain_end hs, hgo⟩
      · -- Any other response is discarded, and the clock decides whether to go on.
        rintro c ⟨s', hs, hgo⟩
        have hnext : Triple (GoesOn c₀ · s') (do
            if (← instantNow w) ≥ deadline then return .error .timeout
            else drainLoop w deadline fuel) (DrainPost w c₀ (fuel + 1) s) (fun _ _ => False) := by
          rintro c hgo
          have hgo' := hgo.looked
          refine Triple.bind (P := (· = c)) (Q := fun now c' => now = w.now c.tick ∧
            c' = { c with tick := c.tick + 1 }) ?_ (fun now => ?_) c rfl
          · rintro c rfl
            exact ⟨rfl, rfl⟩
          · rintro c' ⟨rfl, rfl⟩
            split_ifs with hlate
            · exact ⟨hgo'.same, Or.inl ⟨rfl, c.tick, deadline, hgo.tick, Nat.lt_succ_self _,
                hgo.same.opDeadline.trans hd, hlate⟩⟩
            · refine (ih s').conseq (P := (· = { c with tick := c.tick + 1 }))
                (fun _ h => h ▸ hgo') (fun r c' h => ?_) (fun _ _ h => h) _ rfl
              have hmore : Stream.drain (fuel + 1) s = Stream.drain fuel s' :=
                Stream.drain_more hs hr
              cases r with
              | ok u =>
                obtain ⟨s'', hs'', hgo''⟩ := h
                exact ⟨s'', hmore.trans hs'', hgo''⟩
              | error e =>
                refine ⟨h.same, h.cause.imp_right (Or.imp_right fun h => ⟨h.1, ?_⟩)⟩
                rw [hmore]
                exact h.2
        cases r with
        | requestEnd => exact absurd rfl hr
        | nodeDef d => exact hnext c hgo
        | nodeData id data => exact hnext c hgo
    · refine Triple.pure fun c h => ⟨h.same, h.cause.imp_right (Or.imp_right fun h => ⟨h.1, ?_⟩)⟩
      obtain ⟨s', hs, hsym⟩ := h.2
      exact ⟨s', Stream.drain_error hs, hsym⟩

/-- The console at the start of a capture: the request is written, and the earlier responses are
set aside. -/
def startCapture (w : World) (id : Int32) (timeout : Time) (c : Console) : Console :=
  { c with
    wsock := c.wsock ++ [requestNodeDataMessage id]
    tick := c.tick + 2
    main := { c.main with
      capture := some []
      opDeadline := some (w.now (c.tick + 1) + timeout)
      pending := [] } }

theorem getBinaryNode_written (ht : c.streamTainted = false) (hw : w.write c.tick = .ok ())
    (id : Int32) (timeout : Time) :
    getBinaryNode w id timeout c = (do
      let result ← drainLoop w (w.now (c.tick + 1) + timeout) (c.budget + 1)
      requeue c.main.pending
      takeCapture result) (c.startCapture w id timeout) := by
  have hreq : requestNodeData w id c =
      .ok () { c with wsock := c.wsock ++ [requestNodeDataMessage id], tick := c.tick + 1 } := by
    rw [requestNodeData, request_usable ht]
    simp only [writeAll, hw]
  simp only [getBinaryNode, bind, EStateM.bind, hreq]
  rfl

/-- A request that cannot be written. -/
theorem getBinaryNode_unwritten (ht : c.streamTainted = false) {kind : IoErrorKind}
    (hw : w.write c.tick = .error kind) (id : Int32) (timeout : Time) :
    getBinaryNode w id timeout c = .error (.io kind) { c with tick := c.tick + 1 } := by
  have hreq : requestNodeData w id c = .error (.io kind) { c with tick := c.tick + 1 } := by
    rw [requestNodeData, request_usable ht]
    simp only [writeAll, hw]
  simp only [getBinaryNode, bind, EStateM.bind, hreq]

/-- The console after a capture, with the earlier responses back in the queue. -/
def endCapture (c : Console) (earlier : List WingResponse) : Console :=
  { c with main := { c.main with
      pending := earlier ++ c.main.pending, opDeadline := none, capture := none } }

theorem takeCapture_ok {captured : List UInt8} (h : c.main.capture = some captured)
    {earlier : List WingResponse} :
    (do requeue earlier; takeCapture (.ok ()) : ConsoleM (List UInt8)) c =
      .ok captured (c.endCapture earlier) := by
  simp only [bind, EStateM.bind, requeue, modifyMain, run_modify, takeCapture, run_get, h]
  rfl

theorem takeCapture_error {e : Error} (he : e ≠ .timeout) {earlier : List WingResponse} :
    (do requeue earlier; takeCapture (.error e) : ConsoleM (List UInt8)) c =
      .error e (c.endCapture earlier) := by
  have hne : (.error e : Except Error Unit) ≠ .error .timeout := fun h => he (Except.error.inj h)
  simp only [bind, EStateM.bind, requeue, modifyMain, run_modify, takeCapture, run_get,
    hne, ↓reduceIte]
  rfl

/-- What a capture returns: exactly what it has taken off the stream, up to the end of the reply. -/
structure Captured (c : Console) (bytes : List UInt8) (c' : Console) : Prop where
  /-- Another call can follow. -/
  ready : Ready c'
  /-- The queue is the same. -/
  pending : c'.main.pending = c.main.pending
  /-- The logical stream was drained up to the end of the reply. -/
  drained : ∃ s', Stream.drain (c.budget + 1) c.stream = .ok () s' ∧ s'.symbols = c'.logical
  /-- They are the bytes that were taken off it. -/
  bytes : ∃ taken : List Decoded, bytes = taken.map (·.2) ∧
    c.logical = taken.map .ok ++ c'.logical

/-- How a capture fails: it saw its deadline pass, the session was disturbed, or the stream itself
failed. -/
inductive CaptureLost (w : World) (c : Console) (timeout : Time) : Error → Console → Prop
  | timeout {c' : Console} (n : ℕ) (htaint : c'.streamTainted = true) (hn : c.tick + 1 < n)
      (hn' : n < c'.tick) (hlate : w.now (c.tick + 1) + timeout ≤ w.now n) :
      CaptureLost w c timeout .timeout c'
  | disturbed {e : Error} {c' : Console} (he : Disturbance e) (hw : ¬ w.Calm) :
      CaptureLost w c timeout e c'
  | stream {e : Error} {c' : Console} {s' : Stream} (he : e ≠ .timeout)
      (hs : Stream.drain (c.budget + 1) c.stream = .error e s') (hsym : s'.symbols = c'.logical) :
      CaptureLost w c timeout e c'

/-- **`get_binary_node` drains the logical stream** and returns what it has taken, unless it runs
out of time or the session is disturbed. -/
theorem getBinaryNode_drain (hc : Ready c) (id : Int32) (timeout : Time) :
    Triple (· = c) (getBinaryNode w id timeout) (Captured c) (CaptureLost w c timeout) := by
  rintro c rfl
  cases hw : w.write c.tick with
  | error kind =>
    rw [getBinaryNode_unwritten hc.streamTainted hw]
    refine .disturbed (.io kind) fun hcalm => ?_
    rw [hcalm.write] at hw
    cases hw
  | ok u =>
    rw [getBinaryNode_written hc.streamTainted hw]
    have hstart : GoesOn (c.startCapture w id timeout) (c.startCapture w id timeout) c.stream :=
      ⟨⟨⟨rfl, rfl, rfl⟩, rfl, rfl, [], rfl, rfl, rfl, Nat.zero_le _⟩, le_rfl⟩
    refine Triple.bind ((@drainLoop_capturing w (c.startCapture w id timeout) rfl hc.streamTainted _
      rfl (c.budget + 1) c.stream).conseq (fun _ h => h) (fun _ _ h => h) fun _ _ h => h.elim)
      (fun result => ?_) _ hstart
    rintro c₁ hpost
    cases result with
    | ok u =>
      obtain ⟨s', hs, hgo⟩ := hpost
      obtain ⟨taken, hcap, -, hlog, -⟩ := hgo.capturing.taken
      have hcap₁ : c₁.main.capture = some (taken.map (·.2)) := hcap
      have hp : c.main.pending ++ c₁.main.pending = c.main.pending := by
        rw [hgo.same.pending]
        exact List.append_nil _
      rw [takeCapture_ok hcap₁]
      exact ⟨⟨rfl, hgo.same.streamTainted.trans hc.streamTainted⟩, hp, ⟨s', hs,
        hgo.capturing.symbols⟩, taken, rfl, hlog.symm⟩
    | error e =>
      rcases hpost.cause with ⟨rfl, n, deadline, hn, hn', hd, hlate⟩ | ⟨hd, hw⟩ | ⟨he, s', hs, hsym⟩
      · have hdead : deadline = w.now (c.tick + 1) + timeout :=
          Option.some_injective _ (hd.symm.trans hpost.same.opDeadline)
        exact CaptureLost.timeout n rfl hn hn' (hdead ▸ hlate)
      · have he : e ≠ .timeout := by
          rintro rfl
          cases hd
        rw [takeCapture_error he]
        exact CaptureLost.disturbed hd hw
      · rw [takeCapture_error he]
        exact CaptureLost.stream he hs hsym

end Console

end LibWing
