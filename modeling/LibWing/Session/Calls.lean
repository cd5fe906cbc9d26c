import LibWing.Session.Shared
import LibWing.Client.Messages

/-!
# The calls of a clone

The calls that clones make concurrently, as programs of sections.

* `reconnect` : one session at a time replaces the last;
* `readerCall` : a call that holds the read gate.  Between taking the gate and giving it back
  nothing else reaches the parser, and what the call observes of the others meanwhile is its
  `World`, so what it reads is one section; the taint of a capture that timed out is stored by a
  section of its own;
* `requestMeter`, `keepAliveMeters` : the meter calls.  Each holds `mtrs` for one section;
* `keepAlive` : the data keepalive.
-/

namespace LibWing

open Interleave Stateful

namespace Session

variable (t : ℕ)

/-! ### Gates -/

/-- `self.reconnect_gate.lock_recover()`. -/
def lockReconnectGate : Thread Unit :=
  .await (fun s => s.reconnectGate = none) fun _ s => ((), { s with reconnectGate := some t })

/-- `self.read_gate.lock_recover()`: the length of the log when the gate was taken. -/
def lockReadGate : Thread ℕ :=
  .await (fun s => s.readGate = none) fun _ s => (s.log.length, { s with readGate := some t })

/-- The guard of the read gate is dropped. -/
def unlockReadGate : Thread Unit := .store fun _ s => { s with readGate := none }

/-! ### Reconnecting -/

/-- `ReconnectPolicy`. -/
structure ReconnectPolicy where
  /-- How often a handshake is tried. -/
  maxAttempts : ℕ
  /-- The pause behind the first attempt. -/
  initialBackoff : Time
  /-- The longest pause. -/
  maxBackoff : Time

/-- `SessionGap`. -/
structure SessionGap where
  /-- Events may have been missed. -/
  droppedEvents : Bool
  /-- A meter subscription is gone. -/
  metersInvalidated : Bool
  /-- The console may have changed. -/
  stateMayHaveChanged : Bool
  deriving DecidableEq, Repr

/-- `ReconnectOutcome`. -/
structure ReconnectOutcome where
  /-- How many handshakes were tried. -/
  attempts : ℕ
  /-- What the old session had that the new one has not. -/
  gap : SessionGap
  deriving DecidableEq, Repr

/-- The closure `gap` of `reconnect`. -/
def sessionGap : Thread SessionGap := do
  let hasMeterSocket ← .load (·.hasMeterSocket)
  return ⟨true, hasMeterSocket, true⟩

/-- `std::thread::sleep`. -/
def sleep (_ : Time) : Thread Unit := .load fun _ => ()

/-- Under the writer lock: announce the reconnect and wake the reader. -/
def announce : Thread Unit :=
  .store fun _ s => { s with reconnecting := true, phase := .announced }

/-- Under `main` and both socket locks: put the new streams in place. -/
def swapStreams (since : ℕ) (rsock : List Poll) : Thread Unit := .store fun env s =>
  { s with
    reader := s.reader.swapIn env.now rsock
    installed := s.installed + 1
    phase := .swapped }.record t (.swapped since (s.installed + 1) env.now rsock)

/-- Under `mtrs`: the subscription died with the old session. -/
def resetMeters : Thread Unit := .store fun _ s =>
  { s with mtrs := { s.mtrs with activeMeterId := none }, phase := .metersReset }

/-- Under the writer lock: publish the session and lift the fences. -/
def publish (since : ℕ) : Thread Unit := .store fun _ s =>
  { s with
    sessionGeneration := s.sessionGeneration + 1
    reader := { s.reader with streamTainted := false }
    reconnecting := false
    phase := .idle }.record t (.published since s.installed)

/-- What `reconnect` does once a handshake has succeeded. -/
def install (since : ℕ) (rsock : List Poll) (firmware : Option String) : Thread Unit := do
  announce
  let _ ← lockReadGate t
  swapStreams t since rsock
  resetMeters
  if firmware.isSome then .store fun _ s => { s with firmware := firmware }
  publish t since

/-- The loop of `reconnect`, with the number of attempts left after those made so far. -/
def attemptLoop (since : ℕ) (policy : ReconnectPolicy) :
    ℕ → ℕ → Time → Error → Thread (Result ReconnectOutcome)
  | 0, _, _, lastErr => return .error lastErr
  | left + 1, made, backoff, _ => do
    match ← .input (·.handshake) with
    | .ok rsock =>
      let firmware ← .input (·.firmware)
      install t since rsock firmware
      let gap ← sessionGap
      unlockReadGate
      return .ok ⟨made + 1, gap⟩
    | .error err =>
      if left = 0 then attemptLoop since policy left (made + 1) backoff err
      else do
        sleep backoff
        attemptLoop since policy left (made + 1) (min (backoff * 2) policy.maxBackoff) err

/-- What is put down when `reconnect` returns. -/
def reconnectHappening (since session : ℕ) : Result ReconnectOutcome → Happening
  | .ok outcome => .reconnected since outcome.attempts session
  | .error e => .reconnectFailed since e

/-- `reconnect` returns and drops the guard of its gate. -/
def finishReconnect (since : ℕ) (result : Result ReconnectOutcome) :
    Thread (Result ReconnectOutcome) :=
  .atomically fun _ s => (result, { s with reconnectGate := none }.record t
    (reconnectHappening since s.sessionGeneration result))

/-- `reconnect`. -/
def reconnect (reconnectable : Bool) (policy : ReconnectPolicy) :
    Thread (Result ReconnectOutcome) :=
  if !reconnectable then return .error .invalidInput
  else do
    let (since, generation) ← .atomically fun _ s =>
      ((s.log.length, s.sessionGeneration), s.record t (.sampled s.sessionGeneration))
    .store fun _ s => { s with pendingReconnects := s.pendingReconnects + 1 }
    lockReconnectGate t
    .store fun _ s => { s with pendingReconnects := s.pendingReconnects - 1 }
    let current ← .load (·.sessionGeneration)
    if current ≠ generation then do
      let gap ← sessionGap
      finishReconnect t since (.ok ⟨0, gap⟩)
    else do
      let result ← attemptLoop t since policy policy.maxAttempts 0 policy.initialBackoff
        .connectionError
      finishReconnect t since result

/-! ### Reading -/

/-- What a call under the read gate does, but for the taint: its result, and whether it taints the
stream. -/
def readerBody (call : Console.ReaderCall) : Thread (Except Error Console.Reply × Bool) :=
  .atomically fun env s =>
    let (result, c) := outcome (call.run env.world) s.reader
    ((result, c.streamTainted && !s.reader.streamTainted),
      { s with reader := { c with streamTainted := s.reader.streamTainted } })

/-- Under the writer lock: fence the stream after a capture that timed out. -/
def taintStream (since : ℕ) (call : Console.ReaderCall) (result : Except Error Console.Reply) :
    Thread Unit := .store fun _ s =>
  { s with reader := { s.reader with streamTainted := true } }.record t
    (.tainted since s.installed call result)

/-- A call under the read gate returns and drops the guard of the gate. -/
def finishReader (since : ℕ) (call : Console.ReaderCall) (result : Except Error Console.Reply) :
    Thread (Except Error Console.Reply) :=
  .atomically fun _ s => (result,
    { s with readGate := none }.record t (.returned since s.installed call result))

/-- A call under the read gate. -/
def readerCall (call : Console.ReaderCall) : Thread (Except Error Console.Reply) := do
  let since ← lockReadGate t
  let (result, taints) ← readerBody call
  if taints then do
    taintStream t since call result
    finishReader t since call result
  else finishReader t since call result

/-- `keep_alive`. -/
def keepAlive : Thread (Result Unit) := do
  if ← .load (·.reader.streamTainted) then return .error .connectionError
  else .atomically fun env s =>
    let (result, c) := outcome (Console.keepAlive env.world) s.reader
    (result, { s with reader := c })

/-! ### Meters -/

/-- The socket of the meters, bound by the first `request_meter`. -/
def meterSocket (env : Env) (s : Shared) : Result UInt16 × Shared :=
  match s.mtrs.port with
  | some port => (.ok port, s)
  | none =>
    match env.bind with
    | .error kind => (.error (.io kind), s)
    | .ok port =>
      (.ok port, { s with mtrs := { s.mtrs with port := some port }, hasMeterSocket := true })

/-- Under `mtrs`: subscribe.  Only a subscription that reached the wire takes over the keepalive. -/
def subscribe (meters : List Meter) : Thread (Result UInt16) := .atomically fun env s =>
  let id := max s.mtrs.nextMeterId 1
  let (socket, s) := meterSocket env s
  match socket with
  | .error e => (.error e, s)
  | .ok port =>
    match subscribeMessage id port meters with
    | .error e => (.error e, s)
    | .ok buf =>
      match env.write with
      | .error kind => (.error (.io kind), s)
      | .ok () => (.ok id, { s.write buf with
          mtrs := { s.mtrs with
            activeMeterId := some id
            nextMeterId := id + 1
            keepAliveMetersTimer := env.now + seconds metersKeepAliveSeconds } }.record t
          (.subscribed s.installed id s.phase))

/-- `request_meter`. -/
def requestMeter (meters : List Meter) : Thread (Result UInt16) := do
  if ← .load (·.reader.streamTainted) then return .error .connectionError
  else match encodeMeters [] meters with
    | .error e => return .error e
    | .ok _ => subscribe t meters

/-- The meter keepalive is due again later. -/
def rearm (now : Time) (s : Shared) : Shared := { s with mtrs := { s.mtrs with
  keepAliveMetersTimer := now + seconds metersKeepAliveSeconds } }

/-- Under `mtrs`: `_keep_alive_meters`. -/
def renew : Thread (Result Unit) := .atomically fun env s =>
  if s.mtrs.keepAliveMetersTimer ≤ env.now then
    match s.mtrs.port, s.mtrs.activeMeterId with
    | none, _ => (.error .meterNotInitialized, s)
    | some _, none => (.ok (), rearm env.now s)
    | some port, some id =>
      match env.write with
      | .error kind => (.error (.io kind), s)
      | .ok () => (.ok (), (rearm env.now (s.write (renewMessage id port))).record t
          (.renewed s.installed id s.phase))
  else (.ok (), s)

/-- `keep_alive_meters`. -/
def keepAliveMeters : Thread (Result Unit) := do
  if ← .load (·.reader.streamTainted) then return .error .connectionError
  else renew t

end Session

end LibWing
