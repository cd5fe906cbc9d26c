import LibWing.Native.Channel
import LibWing.Node.Def

/-!
# The reader's state and its transport

A `WingConsole` reads one session through a small amount of state behind the `main` lock: unread
transport bytes, the channel decoder, its queued events, bytes to replay, responses to deliver and
the current node id.  `decode_next` takes one logical byte of the Audio Engine channel off it.

* `Poll`, `World` : the environment.  The reading half of the transport is a script of what it does
  each time the reader turns to it; the clock, the `reconnecting` flag and the outcome of writes
  are read from a `World`, at a new instant each time;
* `Main`, `Console` : `_WingConsoleMain` and the session around it;
* `decodeNext` : `decode_next`, with `decodeNextInner` as the loop over `decodeStep`.
-/

namespace LibWing

/-- A decoded value in whichever encoding the console sent. -/
structure WingNodeData where
  /-- The text, if it came as one. -/
  stringValue : Option String
  /-- The float, if it came as one. -/
  floatValue : Option F32
  /-- The integer, if it came as one. -/
  intValue : Option Int32
  deriving DecidableEq, Repr

namespace WingNodeData

def withString (s : String) : WingNodeData := ⟨some s, none, none⟩

def withFloat (f : F32) : WingNodeData := ⟨none, some f, none⟩

def withI32 (i : Int32) : WingNodeData := ⟨none, none, some i⟩

/-- `with_i16`; the value is already widened. -/
def withI16 (i : Int32) : WingNodeData := ⟨none, none, some i⟩

end WingNodeData

/-- A response of the console. -/
inductive WingResponse where
  | requestEnd
  | nodeDef (d : WingNodeDef)
  | nodeData (id : Int32) (data : WingNodeData)
  deriving DecidableEq, Repr

/-- An instant or a duration, in nanoseconds. -/
abbrev Time := ℕ

/-- `Duration::from_secs`. -/
def seconds (n : ℕ) : Time := n * 1000000000

/-- `Duration::from_millis`. -/
def millis (n : ℕ) : Time := n * 1000000

/-- `DATA_KEEP_ALIVE_SECONDS`. -/
def dataKeepAliveSeconds : ℕ := 7

/-- `AUDIO_ENGINE_CHANNEL`. -/
def audioEngineChannel : UInt8 := 1

/-- `MAX_NATIVE_RESPONSE_BYTES`. -/
def maxNativeResponseBytes : ℕ := 16 * 1024 * 1024

/-- A byte `decode_next` yields, with its channel. -/
abbrev Decoded := Int8 × UInt8

/-- What the reading half of the transport does when the reader turns to it. -/
inductive Poll where
  /-- `set_read_timeout` fails. -/
  | armFailed (kind : IoErrorKind)
  /-- `read` returns; no bytes are the end of the stream. -/
  | read (result : Except IoErrorKind (List UInt8))
  deriving DecidableEq

/-- How many passes of the reader's loop a turn of the transport can serve. -/
def Poll.weight : Poll → ℕ
  | .read (.ok bytes) => bytes.length + 1
  | _ => 1

/-- What the reader observes of the rest of the system, at each instant it looks. -/
structure World where
  /-- `Instant::now()`. -/
  now : ℕ → Time
  /-- The `reconnecting` flag. -/
  reconnecting : ℕ → Bool
  /-- The outcome of a `write_all`. -/
  write : ℕ → Except IoErrorKind Unit

/-- `_WingConsoleMain`; `rxBuf` holds the bytes of `rx_buf` not yet consumed. -/
structure Main where
  /-- When the next keepalive is due. -/
  keepAliveTimer : Time
  /-- Bytes that were received and not yet taken. -/
  rxBuf : List UInt8
  /-- The framing of the channels. -/
  rxChannels : ChannelDecoder
  /-- Events of the framing that were not yet taken. -/
  rxEvents : List ChannelEvent
  /-- Decoded bytes replayed after a bounded read timed out mid-response. -/
  replay : List Decoded
  /-- Whole responses read off the wire but not yet delivered. -/
  pending : List WingResponse
  /-- What the reader has consumed of the response it is at. -/
  readCapture : List Decoded
  /-- The node that a value without navigation belongs to. -/
  currentNodeId : Int32
  /-- The deadline of an attended operation. -/
  opDeadline : Option Time
  /-- The bytes of a raw capture, when one is active. -/
  capture : Option (List UInt8)

/-- A console as its reader sees it. -/
structure Console where
  /-- What is behind the `main` lock. -/
  main : Main
  /-- What the transport will do; when the script ends, so has the stream. -/
  rsock : List Poll
  /-- The read timeout the transport was last given. -/
  rsockTimeout : Time
  /-- The messages written to the transport. -/
  wsock : List (List UInt8)
  /-- `stream_tainted`. -/
  streamTainted : Bool
  /-- How often the world has been looked at. -/
  tick : ℕ

/-- The parser state of a new session, at time `now`. -/
def Main.new (now : Time) : Main where
  keepAliveTimer := now + seconds dataKeepAliveSeconds
  rxBuf := []
  rxChannels := .on audioEngineChannel
  rxEvents := []
  replay := []
  pending := []
  readCapture := []
  currentNodeId := 0
  opDeadline := none
  capture := none

/-- A console over a transport, as `from_boxed` builds it. -/
def Console.new (now : Time) (rsock : List Poll) : Console where
  main := .new now
  rsock := rsock
  rsockTimeout := 0
  wsock := []
  streamTainted := false
  tick := 0

/-- A program of the reader: it may fail, and keeps the state it failed in. -/
abbrev ConsoleM := EStateM Error Console

namespace Console

/-- Change the state behind the `main` lock. -/
def modifyMain (f : Main → Main) : ConsoleM Unit :=
  modify fun c => { c with main := f c.main }

variable (w : World)

/-- `Instant::now()`. -/
def instantNow : ConsoleM Time :=
  modifyGet fun c => (w.now c.tick, { c with tick := c.tick + 1 })

/-- `self.reconnecting.load(..)`. -/
def loadReconnecting : ConsoleM Bool :=
  modifyGet fun c => (w.reconnecting c.tick, { c with tick := c.tick + 1 })

/-- `self.wsock.lock().write_all(..)?`. -/
def writeAll (bytes : List UInt8) : ConsoleM Unit := fun c =>
  match w.write c.tick with
  | .ok () => .ok () { c with wsock := c.wsock ++ [bytes], tick := c.tick + 1 }
  | .error kind => .error (.io kind) { c with tick := c.tick + 1 }

/-- `_keep_alive`. -/
def keepAlive : ConsoleM Unit := do
  let now ← instantNow w
  if (← get).main.keepAliveTimer ≤ now then
    writeAll w [0xdf, 0xd1]
    let now ← instantNow w
    modifyMain fun r => { r with keepAliveTimer := now + seconds dataKeepAliveSeconds }

/-- `Err(Error::Timeout)` if the deadline of the operation has passed. -/
def checkDeadline : ConsoleM Unit := do
  if let some deadline := (← get).main.opDeadline then
    let now ← instantNow w
    if now ≥ deadline then throw .timeout

/-- `self.rsock.lock().set_read_timeout(..)?` and `self.rsock.lock().read(..)`: the bytes, or
`none` after an error that only means that nothing has arrived yet. -/
def pollTransport (timeout : Time) : ConsoleM (Option (List UInt8)) := fun c =>
  match c.rsock with
  | [] => .error .connectionError { c with rsockTimeout := timeout }
  | poll :: rest =>
    let c := { c with rsockTimeout := timeout, rsock := rest }
    match poll with
    | .armFailed kind => .error (.io kind) c
    | .read (.ok []) => .error .connectionError c
    | .read (.ok bytes) => .ok (some bytes) c
    | .read (.error kind) => if kind.isBlocking then .ok none c else .error (.io kind) c

/-- The read timeout `decode_next_inner` gives the transport: until the next keepalive, and for an
attended operation until its deadline, but at least a millisecond. -/
def socketTimeout : ConsoleM Time := do
  let now ← instantNow w
  let main := (← get).main
  match main.opDeadline with
  | some deadline => do
    let later ← instantNow w
    return max (min (main.keepAliveTimer - now) (deadline - later)) (millis 1)
  | none => return main.keepAliveTimer - now

/-- The branch of `decode_next_inner` for an empty receive buffer: `false` to try again. -/
def refill : ConsoleM Bool := do
  keepAlive w
  checkDeadline w
  let timeout ← socketTimeout w
  match ← pollTransport timeout with
  | some bytes =>
    modifyMain fun r => { r with rxBuf := bytes }
    return true
  | none =>
    checkDeadline w
    return false

/-- `ensure_native_response_capacity`. -/
def ensureNativeResponseCapacity (len : ℕ) : ConsoleM Unit :=
  if len ≥ maxNativeResponseBytes then throw .invalidData else pure ()

/-- Hand a decoded byte out, recording it in `read_capture`. -/
def emit (decoded : Decoded) : ConsoleM Decoded := do
  ensureNativeResponseCapacity (← get).main.readCapture.length
  modifyMain fun r => { r with readCapture := r.readCapture ++ [decoded] }
  return decoded

/-- The first Audio Engine byte among the queued events, and the events after it. -/
def popAudio : List ChannelEvent → Option UInt8 × List ChannelEvent
  | [] => (none, [])
  | .data channel value :: events =>
    if channel = audioEngineChannel then (some value, events) else popAudio events
  | .selected _ :: events => popAudio events

/-- Take one byte off the receive buffer and decode its framing. -/
def takeByte : ConsoleM (Option Decoded) := do
  let main := (← get).main
  match main.rxBuf with
  | [] => return none
  | byte :: rest =>
    let (events, channels) := main.rxChannels.pushByte byte
    modifyMain fun r => { r with rxBuf := rest, rxChannels := channels }
    match events with
    | .error e => throw e
    | .ok (first, second) =>
      -- `rx_events` is empty here: only a second event is queued.
      modifyMain fun r => { r with rxEvents := r.rxEvents ++ second.toList }
      match (popAudio first.toList).1 with
      | some value => some <$> emit (1, value)
      | none => return none

/-- The last part of a pass: a byte of the receive buffer, refilled if it is empty. -/
def decodeBuffer : ConsoleM (Option Decoded) := do
  if (← get).main.rxBuf = [] then
    if ← refill w then takeByte else return none
  else takeByte

/-- The part of a pass after the replay queue: queued events come before new bytes. -/
def decodeEvents : ConsoleM (Option Decoded) := do
  let (value, events) := popAudio (← get).main.rxEvents
  modifyMain fun r => { r with rxEvents := events }
  match value with
  | some value => some <$> emit (1, value)
  | none => decodeBuffer w

/-- One pass of the loop of `decode_next_inner`; `none` to continue. -/
def decodeStep : ConsoleM (Option Decoded) := do
  if ← loadReconnecting w then throw .reconnecting
  else match (← get).main.replay with
    | decoded :: rest =>
      modifyMain fun r => { r with replay := rest }
      some <$> emit decoded
    | [] => decodeEvents w

/-- `decode_next_inner`, at most `fuel` passes. -/
def decodeNextInner : ℕ → ConsoleM Decoded
  | 0 => throw .connectionError
  | fuel + 1 => do
    match ← decodeStep w with
    | some decoded => return decoded
    | none => decodeNextInner fuel

/-- A bound on the passes `decode_next_inner` makes: each takes a byte or a turn of the
transport. -/
def weight (c : Console) : ℕ := c.main.rxBuf.length + (c.rsock.map Poll.weight).sum

/-- `decode_next`: one logical byte, also appended to an active raw capture. -/
def decodeNext : ConsoleM Decoded := do
  let decoded ← decodeNextInner w ((← get).weight + 1)
  if let some captured := (← get).main.capture then
    ensureNativeResponseCapacity captured.length
    modifyMain fun r => { r with capture := some (captured ++ [decoded.2]) }
  return decoded

end Console

end LibWing
