import LibWing.Console.Read
import LibWing.Console.Stream

/-!
# The parser over the logical stream

`read_inner` is one program over every source of bytes.  Over the logical stream it is the
specification of reading: what a read of this stream returns, whatever the transport does.

* `Source.readInner_congr` : a relation that follows the structure of programs holds of `read_inner`
  over two sources once it holds of the sources;
* `Stream`, `Stream.read` : a logical stream with the current node id, and one read of it;
* `Stream.responses` : the responses of a stream;
* `Console.readNew_spec` : a read of the console is the read of its logical stream, or it timed
  out and left that stream as it was.
-/

namespace LibWing

open Stateful

/-! ### Errors of the definition reader -/

namespace Cursor

variable {α β : Type}

/-- A reader whose only failure is `InvalidData`. -/
def Checked (x : Cursor α) : Prop := ∀ s e, x s = .error e → e = .invalidData

theorem Checked.bind {x : Cursor α} {f : α → Cursor β} (hx : Checked x) (hf : ∀ a, Checked (f a)) :
    Checked (x >>= f) := by
  intro s e h
  change (x s >>= fun p => f p.1 p.2) = _ at h
  cases hxs : x s with
  | error e' =>
    rw [hxs] at h
    cases h
    exact hx s e hxs
  | ok p =>
    rw [hxs] at h
    exact hf p.1 p.2 e h

theorem Checked.pure (a : α) : Checked (Pure.pure a : Cursor α) := by
  intro s e h
  cases h

theorem checked_take (len : ℕ) : Checked (take len) := by
  intro s e h
  unfold take at h
  split_ifs at h
  cases h
  rfl

theorem checked_readU8 : Checked readU8 := by
  intro s e h
  unfold readU8 at h
  split at h <;> cases h
  rfl

theorem checked_readU16 : Checked readU16 := by
  intro s e h
  unfold readU16 at h
  split at h <;> cases h
  rfl

theorem checked_readI32 : Checked readI32 := by
  intro s e h
  unfold readI32 at h
  split at h <;> cases h
  rfl

theorem checked_readF32 : Checked readF32 := by
  intro s e h
  unfold readF32 at h
  split at h <;> cases h
  rfl

theorem checked_readShortString : Checked readShortString := by
  refine checked_readU8.bind fun len => (checked_take len.toNat).bind fun bytes => ?_
  cases fromUtf8 bytes with
  | some value => exact Checked.pure value
  | none =>
    intro s e h
    cases h
    rfl

theorem checked_readMany {item : Cursor α} (h : Checked item) (n : ℕ) :
    Checked (readMany item n) := by
  induction n with
  | zero => exact Checked.pure []
  | succ n ih => exact h.bind fun _ => ih.bind fun _ => Checked.pure _

theorem checked_readFields (d : WingNodeDef) : Checked (readFields d) := by
  unfold readFields
  cases d.nodeType with
  | node => exact Checked.pure d
  | unknown nibble => exact Checked.pure d
  | string => exact checked_readU16.bind fun _ => Checked.pure _
  | linearFloat =>
    exact checked_readF32.bind fun _ => checked_readF32.bind fun _ =>
      checked_readI32.bind fun _ => Checked.pure _
  | logarithmicFloat =>
    exact checked_readF32.bind fun _ => checked_readF32.bind fun _ =>
      checked_readI32.bind fun _ => Checked.pure _
  | faderLevel =>
    have hget : Checked (get : Cursor (List UInt8)) := by
      intro s e h
      cases h
    refine hget.bind fun rest => ?_
    split_ifs
    · exact checked_readF32.bind fun _ => checked_readF32.bind fun _ =>
        checked_readI32.bind fun _ => Checked.pure _
    · exact Checked.pure d
  | integer => exact checked_readI32.bind fun _ => checked_readI32.bind fun _ => Checked.pure _
  | stringEnum =>
    exact checked_readU16.bind fun _ => (checked_readMany
      (checked_readShortString.bind fun _ => checked_readShortString.bind fun _ =>
        Checked.pure _) _).bind fun _ => Checked.pure _
  | floatEnum =>
    exact checked_readU16.bind fun _ => (checked_readMany
      (checked_readF32.bind fun _ => checked_readShortString.bind fun _ =>
        Checked.pure _) _).bind fun _ => Checked.pure _

end Cursor

/-- A body that is no definition fails with `InvalidData`. -/
theorem WingNodeDef.fromBytes_error {raw : List UInt8} {e : Error}
    (h : WingNodeDef.fromBytes raw = .error e) : e = .invalidData := by
  have hdef : Cursor.Checked (Cursor.readDef raw) :=
    Cursor.checked_readI32.bind fun _ => Cursor.checked_readI32.bind fun _ =>
      Cursor.checked_readU16.bind fun _ => Cursor.checked_readShortString.bind fun _ =>
      Cursor.checked_readShortString.bind fun _ => Cursor.checked_readU16.bind fun _ =>
      Cursor.checked_readFields _
  unfold fromBytes at h
  cases hr : Cursor.readDef raw raw with
  | error e' =>
    rw [hr] at h
    cases h
    exact hdef raw e hr
  | ok p =>
    rw [hr] at h
    cases h

/-! ### The parser over two sources -/

namespace Source

variable {σ τ : Type} {src : Source σ} {src' : Source τ}
  {Φ : ∀ {α : Type}, EStateM Error σ α → EStateM Error τ α → Prop}

/-- `Φ` relates what the parser uses of two sources. -/
structure Related (Φ : ∀ {α : Type}, EStateM Error σ α → EStateM Error τ α → Prop)
    (src : Source σ) (src' : Source τ) : Prop extends Congruence Φ where
  /-- It holds of the failure of the parser. -/
  invalidData : ∀ {α : Type}, Φ (throw .invalidData : EStateM Error σ α) (throw .invalidData)
  /-- It relates the next bytes. -/
  decodeNext : Φ src.decodeNext src'.decodeNext
  /-- It relates the nodes. -/
  currentNodeId : Φ src.currentNodeId src'.currentNodeId
  /-- It relates going to a node. -/
  setCurrentNodeId : ∀ id, Φ (src.setCurrentNodeId id) (src'.setCurrentNodeId id)

namespace Related

variable (h : Related Φ src src')
include h

theorem readU8 : Φ src.readU8 src'.readU8 :=
  h.bind h.decodeNext fun _ => h.pure _

theorem readU16 : Φ src.readU16 src'.readU16 :=
  h.bind h.decodeNext fun _ => h.bind h.decodeNext fun _ => h.pure _

theorem readU32 : Φ src.readU32 src'.readU32 :=
  h.bind h.decodeNext fun _ => h.bind h.decodeNext fun _ => h.bind h.decodeNext fun _ =>
    h.bind h.decodeNext fun _ => h.pure _

theorem readBytes (len : ℕ) : Φ (src.readBytes len) (src'.readBytes len) := by
  induction len with
  | zero => exact h.pure []
  | succ len ih => exact h.bind h.decodeNext fun _ => h.bind ih fun _ => h.pure _

theorem readString (len : ℕ) : Φ (src.readString len) (src'.readString len) := by
  refine h.bind (h.readBytes len) fun buf => ?_
  cases fromUtf8 buf with
  | some value => exact h.pure value
  | none => exact h.invalidData

theorem nodeData (data : WingNodeData) : Φ (src.nodeData data) (src'.nodeData data) :=
  h.bind h.currentNodeId fun _ => h.pure _

theorem readDefLength : Φ src.readDefLength src'.readDefLength := by
  refine h.bind h.readU16 fun len => ?_
  split_ifs
  · exact h.readU32
  · exact h.pure _

theorem readNodeDef : Φ src.readNodeDef src'.readNodeDef := by
  refine h.bind h.readDefLength fun len => ?_
  split_ifs
  · exact h.invalidData
  · refine h.bind (h.readBytes _) fun raw => h.bind ?_ fun d => h.pure _
    cases hd : WingNodeDef.fromBytes raw with
    | ok d => exact h.pure d
    | error e =>
      rw [WingNodeDef.fromBytes_error hd]
      exact h.invalidData

/-- The token that begins with `cmd`, one case per kind of token. -/
theorem token (cmd : UInt8) : Φ (src.token cmd) (src'.token cmd) := by
  unfold Source.token
  cases Opcode.ofByte cmd
  case smallInt => exact h.nodeData _
  case index => exact h.pure none
  case shortString => exact h.bind (h.readString _) fun _ => h.nodeData _
  case name => exact h.bind (h.readBytes _) fun _ => h.pure none
  case emptyString => exact h.nodeData _
  case longString => exact h.bind h.readU8 fun _ => h.bind (h.readString _) fun _ => h.nodeData _
  case index16 => exact h.bind h.readU16 fun _ => h.pure none
  case int16 => exact h.bind h.readU16 fun _ => h.nodeData _
  case int32 => exact h.bind h.readU32 fun _ => h.nodeData _
  case float => exact h.bind h.readU32 fun _ => h.nodeData _
  case rawFloat => exact h.bind h.readU32 fun _ => h.nodeData _
  case nodeId => exact h.bind h.readU32 fun _ => h.bind (h.setCurrentNodeId _) fun _ => h.pure none
  case click => exact h.pure none
  case step => exact h.bind h.readU8 fun _ => h.pure none
  case root => exact h.pure none
  case up => exact h.pure none
  case data => exact h.pure none
  case definition => exact h.pure none
  case requestEnd => exact h.pure _
  case nodeDef => exact h.readNodeDef
  case unknown => exact h.invalidData

theorem readToken : Φ src.readToken src'.readToken :=
  h.bind h.decodeNext fun decoded => h.token decoded.2

/-- **The parser respects every relation its sources respect.** -/
theorem readInner (fuel : ℕ) : Φ (src.readInner fuel) (src'.readInner fuel) := by
  induction fuel with
  | zero => exact h.invalidData
  | succ fuel ih =>
    refine h.bind h.readToken fun response => ?_
    cases response with
    | some r => exact h.pure r
    | none => exact ih

end Related

end Source

/-! ### Reading the logical stream -/

/-- A logical stream, with the current node id and the number of bytes the response that is being
read has taken so far. -/
structure Stream where
  /-- What the framing yields from here on. -/
  symbols : List (Except Error Decoded)
  /-- The current node. -/
  nodeId : Int32
  /-- How many bytes of the response were consumed. -/
  captured : ℕ

namespace Stream

/-- The next byte of the stream. -/
def next : EStateM Error Stream Decoded := fun s =>
  match s.symbols with
  | [] => .error .connectionError s
  | .error e :: rest => .error e { s with symbols := rest }
  | .ok decoded :: rest =>
    if s.captured ≥ maxNativeResponseBytes then .error .invalidData { s with symbols := rest }
    else .ok decoded { s with symbols := rest, captured := s.captured + 1 }

/-- The stream as a source of bytes. -/
def source : Source Stream where
  decodeNext := next
  currentNodeId := fun s => .ok s.nodeId s
  setCurrentNodeId id := fun s => .ok () { s with nodeId := id }

/-- One response of the stream. -/
def read : EStateM Error Stream WingResponse := fun s =>
  match source.readInner (maxNativeResponseBytes + 1) { s with captured := 0 } with
  | .ok response s' => .ok response { s' with captured := 0 }
  | .error e s' => .error e { s' with captured := 0 }

theorem read_ok {s s' : Stream} {r : WingResponse}
    (h : source.readInner (maxNativeResponseBytes + 1) { s with captured := 0 } = .ok r s') :
    s.read = .ok r { s' with captured := 0 } := by
  simp only [read, h]

theorem read_error {s s' : Stream} {e : Error}
    (h : source.readInner (maxNativeResponseBytes + 1) { s with captured := 0 } = .error e s') :
    s.read = .error e { s' with captured := 0 } := by
  simp only [read, h]

theorem outcome_ok {s s' : Stream} {r : WingResponse} (h : s.read = .ok r s') :
    outcome Stream.read s = (.ok r, s') := by
  rw [outcome, h]

theorem outcome_error {s s' : Stream} {e : Error} (h : s.read = .error e s') :
    outcome Stream.read s = (.error e, s') := by
  rw [outcome, h]

/-- A read ends as the parser ends. -/
theorem outcome_read {s s' : Stream} {r : Except Error WingResponse}
    (h : outcome (source.readInner (maxNativeResponseBytes + 1)) { s with captured := 0 } =
      (r, s')) :
    outcome Stream.read s = (r, { s' with captured := 0 }) := by
  cases hrun : source.readInner (maxNativeResponseBytes + 1) { s with captured := 0 } with
  | ok a s₁ =>
    rw [outcome, hrun] at h
    cases h
    exact outcome_ok (read_ok hrun)
  | error e s₁ =>
    rw [outcome, hrun] at h
    cases h
    exact outcome_error (read_error hrun)

end Stream

namespace Console

variable {w : World} {c c₀ c' : Console}

/-- The logical stream of a console between two reads. -/
def stream (c : Console) : Stream := ⟨c.logical, c.main.currentNodeId, 0⟩

theorem Ticked.stream (h : Ticked c c') : c'.stream = c.stream := by
  rw [Console.stream, Console.stream, h.sameStream.logical, h.currentNodeId]

/-- What no call changes for good: the deadline, the raw capture and the taint. -/
structure SameSession (c c' : Console) : Prop where
  /-- The deadline is the same. -/
  opDeadline : c'.main.opDeadline = c.main.opDeadline
  /-- The capture is the same. -/
  capture : c'.main.capture = c.main.capture
  /-- The stream is as tainted as before. -/
  streamTainted : c'.streamTainted = c.streamTainted

/-- What a call leaves alone while it parses. -/
structure SameCall (c c' : Console) : Prop extends SameSession c c' where
  /-- The queue is the same. -/
  pending : c'.main.pending = c.main.pending

theorem SameSession.trans (h : SameSession c₀ c) (h' : SameSession c c') : SameSession c₀ c' :=
  ⟨h'.opDeadline.trans h.opDeadline, h'.capture.trans h.capture,
    h'.streamTainted.trans h.streamTainted⟩

theorem SameFrame.sameCall (h : SameFrame c c') : SameCall c c' :=
  ⟨⟨h.opDeadline, h.capture, h.streamTainted⟩, h.pending⟩

theorem SameCall.trans (h : SameCall c₀ c) (h' : SameCall c c') : SameCall c₀ c' :=
  ⟨h.toSameSession.trans h'.toSameSession, h'.pending.trans h.pending⟩

/-- A console and a stream in the middle of a read that began at `c₀`: they are at the same place,
and the bytes taken so far are recorded. -/
structure Reading (c₀ c : Console) (s : Stream) : Prop where
  /-- Nothing else of the call has changed. -/
  call : SameCall c₀ c
  /-- It is where the logical stream is. -/
  symbols : s.symbols = c.logical
  /-- And at the same node. -/
  nodeId : s.nodeId = c.main.currentNodeId
  /-- What was consumed was counted. -/
  captured : s.captured = c.main.readCapture.length
  /-- What was consumed is recorded, for a replay. -/
  recorded : c.main.readCapture.map .ok ++ c.logical = c₀.logical

/-- The two after a read that failed without running out of time. -/
structure Failed (c₀ : Console) (e : Error) (c : Console) (s : Stream) : Prop where
  /-- It did not run out of time. -/
  error : e ≠ .timeout
  /-- Nothing else of the call has changed. -/
  call : SameCall c₀ c
  /-- It is where the logical stream is. -/
  symbols : s.symbols = c.logical
  /-- And at the same node. -/
  nodeId : s.nodeId = c.main.currentNodeId

/-- A read that was cut short: it ran out of time with its bytes still recorded, or the session was
disturbed. -/
structure Cut (w : World) (c₀ : Console) (e : Error) (c : Console) : Prop where
  /-- Nothing else of the call has changed. -/
  call : SameCall c₀ c
  /-- Either the deadline has passed, or the session was disturbed. -/
  cause : (e = .timeout ∧ c₀.main.opDeadline ≠ none ∧
      c.main.readCapture.map .ok ++ c.logical = c₀.logical) ∨ (e ≠ .timeout ∧ ¬ w.Calm)

theorem Reading.failed {s : Stream} {e : Error} (h : Reading c₀ c s) (he : e ≠ .timeout) :
    Failed c₀ e c s :=
  ⟨he, h.call, h.symbols, h.nodeId⟩

theorem decodeNext_sim (hcap : c₀.main.capture = none) :
    CancelSim (Reading c₀) (Failed c₀) (Cut w c₀) (decodeNext w) Stream.next := by
  intro s c h
  refine (decodeNext_spec (c := c) (h.call.capture.trans hcap)).conseq (P := (· = c))
    (fun _ h => h) (fun decoded c' ht => ?_) (fun e c' hl => ?_) c rfl
  · -- A byte was taken off both.
    have hsym : s.symbols = .ok decoded :: c'.logical := h.symbols.trans ht.logical
    have hroom : ¬ s.captured ≥ maxNativeResponseBytes := by
      rw [h.captured]
      exact Nat.not_le_of_lt ht.room
    refine ⟨{ s with symbols := c'.logical, captured := s.captured + 1 }, ?_,
      h.call.trans ht.frame.sameCall, rfl, h.nodeId.trans ht.frame.currentNodeId.symm, ?_, ?_⟩
    · simp only [Stream.next, hsym, hroom, ↓reduceIte]
    · simp only [h.captured, ht.readCapture, List.length_append, List.length_singleton]
    · rw [← h.recorded, ht.readCapture, ht.logical, List.map_append, List.append_assoc]
      rfl
  · have hcall := h.call.trans hl.frame.sameCall
    have hid : s.nodeId = c'.main.currentNodeId := h.nodeId.trans hl.frame.currentNodeId.symm
    rcases hl.failure with hfail | ⟨rfl, hfull, decoded, hsym⟩
    · cases hfail with
      | timeout hd hsame =>
        refine Or.inl ⟨hcall, Or.inl ⟨rfl, ?_, ?_⟩⟩
        · rw [← h.call.opDeadline]
          exact hd
        · rw [hl.readCapture, hsame]
          exact h.recorded
      | fault hw he => exact Or.inl ⟨hcall, Or.inr ⟨he, hw⟩⟩
      | stream he hsym =>
        refine Or.inr ⟨{ s with symbols := c'.logical }, ?_, he, hcall, rfl, hid⟩
        simp only [Stream.next, h.symbols.trans hsym]
      | ended hnil hnil' =>
        refine Or.inr ⟨s, ?_, Error.noConfusion, hcall, ?_, hid⟩
        · simp only [Stream.next, h.symbols.trans hnil]
        · rw [h.symbols, hnil, hnil']
    · -- The response is too long for both.
      refine Or.inr ⟨{ s with symbols := c'.logical }, ?_, Error.noConfusion, hcall, rfl, hid⟩
      have hcapt : s.captured ≥ maxNativeResponseBytes := by
        rw [h.captured]
        exact hfull
      simp only [Stream.next, h.symbols.trans hsym, hcapt, ↓reduceIte]

/-- The console's parser does what the stream's parser does, unless it is cut short. -/
theorem source_related (c₀ : Console) (hcap : c₀.main.capture = none) :
    Source.Related (fun {_} x y => CancelSim (Reading c₀) (Failed c₀) (Cut w c₀) x y) (source w)
      Stream.source where
  toCongruence := CancelSim.congruence _ _ _
  invalidData := CancelSim.throw fun _ _ h => h.failed Error.noConfusion
  decodeNext := decodeNext_sim hcap
  currentNodeId := fun s _ h => ⟨s, congrArg (EStateM.Result.ok · s) h.nodeId, h⟩
  setCurrentNodeId := fun id s _ h =>
    ⟨{ s with nodeId := id }, rfl,
      ⟨h.call.trans ⟨⟨rfl, rfl, rfl⟩, rfl⟩, h.symbols, rfl, h.captured, h.recorded⟩⟩

/-! ### One read of the console -/

/-- The console with an empty record. -/
def cleared (c : Console) : Console := { c with main := { c.main with readCapture := [] } }

theorem cleared_stream (c : Console) : c.cleared.stream = c.stream := rfl

theorem readNew_eq (w : World) (c : Console) :
    readNew w c = settle w c.main.currentNodeId (outcome (readInner w) c.cleared).1
      (outcome (readInner w) c.cleared).2 := rfl

theorem settle_ok (id : Int32) (r : WingResponse) :
    settle w id (.ok r) c = .ok r c.cleared := rfl

/-- A timeout puts the recorded bytes back. -/
theorem settle_timeout (id : Int32) :
    settle w id (.error .timeout) c = .error .timeout
      { c with main := { c.main with
          replay := c.main.readCapture ++ c.main.replay
          readCapture := []
          currentNodeId := id } } := rfl

theorem settle_error {e : Error} (he : e ≠ .timeout) (id : Int32) :
    settle w id (.error e) c = finishRead w (.error e) c.cleared := by
  have hne : (.error e : Except Error WingResponse) ≠ .error .timeout := by
    intro h
    exact he (Except.error.inj h)
  unfold settle
  rw [if_neg hne]
  rfl

/-- A failure is passed on, unless it is the mark of a reconnect. -/
theorem finishRead_error (e : Error) :
    Triple (Ticked c) (finishRead w (.error e)) (fun _ _ => False)
      (fun e' c' => Ticked c c' ∧ (e' = e ∨ e' = .reconnecting ∧ ¬ w.Calm)) := by
  have hload : Triple (Ticked c) (loadReconnecting w)
      (fun r c' => Ticked c c' ∧ (r = true → ¬ w.Calm)) (fun e' c' => Ticked c c' ∧
        (e' = e ∨ e' = .reconnecting ∧ ¬ w.Calm)) := by
    intro s h
    refine ⟨h.trans ⟨⟨⟨rfl, rfl, rfl, rfl, rfl⟩, rfl, rfl, rfl, rfl⟩, rfl, rfl⟩, fun hr hcalm => ?_⟩
    rw [hcalm.reconnecting] at hr
    cases hr
  have hpass : Triple (Ticked c) (throw e : ConsoleM WingResponse) (fun _ _ => False)
      (fun e' c' => Ticked c c' ∧ (e' = e ∨ e' = .reconnecting ∧ ¬ w.Calm)) :=
    Triple.throw fun _ h => ⟨h, Or.inl rfl⟩
  cases e
  case connectionError =>
    refine Triple.bind hload fun r => ?_
    split_ifs with hr
    · exact Triple.throw fun _ h => ⟨h.1, Or.inr ⟨rfl, h.2 hr⟩⟩
    · exact Triple.throw fun _ h => ⟨h.1, Or.inl rfl⟩
  case io kind =>
    refine Triple.bind hload fun r => ?_
    split_ifs with hr
    · exact Triple.throw fun _ h => ⟨h.1, Or.inr ⟨rfl, h.2 hr⟩⟩
    · exact Triple.throw fun _ h => ⟨h.1, Or.inl rfl⟩
  all_goals exact hpass

/-- What a read that fails leaves behind: it ran out of time and nothing has moved, the session was
disturbed, or the stream itself failed. -/
structure ReadFailed (w : World) (c : Console) (e : Error) (c' : Console) : Prop where
  /-- Nothing else of the call has changed. -/
  call : SameCall c c'
  /-- It ran out of time with the stream as it was, or was disturbed, or failed as the stream
  does. -/
  cause : (e = .timeout ∧ c.main.opDeadline ≠ none ∧ c'.stream = c.stream) ∨
    (e ≠ .timeout ∧ (¬ w.Calm ∨ c.stream.read = .error e c'.stream))

/-- **A read of the console is a read of its logical stream**, unless it ran out of time: then the
stream and the node id are what they were. -/
theorem readNew_spec (hcap : c.main.capture = none) :
    Triple (· = c) (readNew w)
      (fun r c' => SameCall c c' ∧ c.stream.read = .ok r c'.stream) (ReadFailed w c) := by
  rintro c rfl
  have hstart : Reading c.cleared c.cleared c.stream :=
    ⟨⟨⟨rfl, rfl, rfl⟩, rfl⟩, rfl, rfl, rfl, rfl⟩
  have hcall : SameCall c c.cleared := ⟨⟨rfl, rfl, rfl⟩, rfl⟩
  have hsim := (source_related (w := w) c.cleared hcap).readInner
    (maxNativeResponseBytes + 1) c.stream c.cleared hstart
  have hinner : outcome (readInner w) c.cleared =
      outcome ((source w).readInner (maxNativeResponseBytes + 1)) c.cleared := rfl
  rw [readNew_eq, hinner, outcome]
  cases hrun : (source w).readInner (maxNativeResponseBytes + 1) c.cleared with
  | ok r c₁ =>
    rw [hrun] at hsim
    obtain ⟨s', hs, hr⟩ := hsim
    rw [settle_ok]
    refine ⟨hcall.trans (hr.call.trans ⟨⟨rfl, rfl, rfl⟩, rfl⟩), ?_⟩
    have hs' : ({ s' with captured := 0 } : Stream) = c₁.cleared.stream := by
      rw [cleared_stream, stream, hr.symbols, hr.nodeId]
    rw [Stream.read_ok hs, hs']
  | error e c₁ =>
    rw [hrun] at hsim
    by_cases he : e = .timeout
    · -- The recorded bytes go back to the front of the stream.
      subst he
      rw [settle_timeout]
      rcases hsim with hcut | ⟨s', -, hf⟩
      · rcases hcut.cause with ⟨-, hd, hrec⟩ | ⟨hne, -⟩
        · refine ⟨hcall.trans (hcut.call.trans ⟨⟨rfl, rfl, rfl⟩, rfl⟩), Or.inl ⟨rfl, hd, ?_⟩⟩
          rw [stream, stream, ← show c.cleared.logical = c.logical from rfl, ← hrec]
          simp only [Console.logical, Console.unread, List.map_append, List.append_assoc]
        · exact absurd rfl hne
      · exact absurd rfl hf.error
    · rw [settle_error he]
      refine (finishRead_error (w := w) (c := c₁.cleared) e).conseq (P := (· = c₁.cleared))
        (fun _ h => h ▸ Ticked.refl _) (fun _ _ h => h.elim) (fun e' c' h => ?_) c₁.cleared rfl
      obtain ⟨htick, herr⟩ := h
      have hsame : c'.stream = c₁.stream := htick.stream.trans (cleared_stream c₁)
      have hcall' : SameCall c₁ c' :=
        SameCall.trans (c := c₁.cleared) ⟨⟨rfl, rfl, rfl⟩, rfl⟩ htick.toSameFrame.sameCall
      rcases hsim with hcut | ⟨s', hs, hf⟩
      · refine ⟨hcall.trans (hcut.call.trans hcall'), Or.inr ⟨?_, Or.inl ?_⟩⟩
        · rcases herr with rfl | ⟨rfl, -⟩
          · exact he
          · exact Error.noConfusion
        · exact (hcut.cause.resolve_left fun h => he h.1).2
      · refine ⟨hcall.trans (hf.call.trans hcall'), Or.inr ?_⟩
        rcases herr with rfl | ⟨rfl, hw⟩
        · refine ⟨he, Or.inr ?_⟩
          have hs' : ({ s' with captured := 0 } : Stream) = c'.stream := by
            rw [hsame, stream, hf.symbols, hf.nodeId]
          rw [Stream.read_error hs, hs']
        · exact ⟨Error.noConfusion, Or.inl hw⟩

end Console

end LibWing
