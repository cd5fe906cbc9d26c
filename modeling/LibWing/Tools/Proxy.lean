import LibWing.Lib.Machine
import LibWing.Tools.Wingcap

/-!
# The capture proxy

The proxy stands between a client and the console.  One worker carries the bytes of each direction,
and both note what they carry in one recorder, and stop together.

* `Recorder.record` : a chunk is noted, up to a number of events and of bytes;
* `Worker` : where `proxy_direction` is;
* `step` : the next step of a worker, with what the sockets and the clock do;
* `run` : the workers' steps, in any order;
* `outcome` : what `run_native_proxy` returns.

A step accesses the shared state once.  The sockets accept, connect and are cloned before the
workers start.
-/

namespace LibWing

namespace Wingcapture

namespace Proxy

/-- `PROXY_MAX_EVENTS`. -/
def maxEvents : ℕ := 100000

/-- `PROXY_MAX_BYTES`. -/
def maxBytes : ℕ := 16 * 1024 * 1024

/-- The size of the buffer that a source is read into. -/
def bufferBytes : ℕ := 8192

/-! ### The recorder -/

/-- `ProxyRecorder`; the clock is the one of the proxy. -/
structure Recorder where
  /-- What was recorded. -/
  events : List CapturedEvent
  /-- How many bytes of payload that is. -/
  bytes : ℕ

/-- `ProxyRecorder::new`. -/
def Recorder.new : Recorder := ⟨[], 0⟩

/-- What is said when a capture gets too large. -/
def exceeded : String :=
  "Native proxy capture exceeded " ++ toString maxEvents ++ " events or " ++ toString maxBytes ++
    " bytes"

/-- The offset of an event that is noted some time after the start. -/
def offsetAt (elapsed : Time) : ℕ := min (elapsed / 1000) (2 ^ 64 - 1)

/-- `ProxyRecorder::record`. -/
def Recorder.record (r : Recorder) (elapsed : Time) (channel : String) (bytes : List UInt8) :
    Except String Recorder :=
  if maxEvents ≤ r.events.length ∨ maxBytes < r.bytes + bytes.length then .error exceeded
  else .ok
    { events := r.events ++ [(offsetAt elapsed, channel, bytes)]
      bytes := r.bytes + bytes.length }

/-- `ProxyRecorder::into_v2`. -/
def Recorder.intoV2 (r : Recorder) : List Char :=
  eventsToV2 "native_proxy_raw" "bounded transparent Native proxy transcript" r.events

/-! ### Workers -/

/-- The two directions. -/
inductive Direction where
  | clientToConsole
  | consoleToClient
  deriving DecidableEq, Repr

/-- The channel that a direction is noted on. -/
def Direction.channel : Direction → String
  | clientToConsole => "N>"
  | consoleToClient => "N<"

/-- `std::net::Shutdown`, as the proxy uses it. -/
inductive Shutdown where
  | write
  | both
  deriving DecidableEq, Repr

/-- Where `proxy_direction` is. -/
inductive Worker where
  /-- Setting the read timeout of the source. -/
  | starting
  /-- Setting the write timeout of the destination. -/
  | limiting
  /-- At the head of the loop. -/
  | checking
  /-- Reading the source. -/
  | reading
  /-- Noting a chunk, or with no bytes the end of the source. -/
  | recording (chunk : List UInt8)
  /-- Writing a chunk that has been noted. -/
  | forwarding (chunk : List UInt8)
  /-- A read or a write has failed. -/
  | refused (message : String)
  /-- Telling the other worker to stop. -/
  | ending (how : Shutdown) (result : Except String Unit)
  /-- Shutting the destination down. -/
  | closing (how : Shutdown) (result : Except String Unit)
  /-- Returned. -/
  | done (result : Except String Unit)

/-- A direction: its worker and what has gone through its sockets. -/
structure Leg where
  /-- Where its worker stands. -/
  worker : Worker
  /-- The bytes that were read from the source. -/
  taken : List UInt8
  /-- The bytes that were written to the destination. -/
  given : List UInt8
  /-- How the destination was shut down. -/
  shut : Option Shutdown

/-- A direction whose worker has just been spawned. -/
def Leg.new : Leg := ⟨.starting, [], [], none⟩

/-- The proxy. -/
structure State where
  /-- The recorder of both. -/
  recorder : Recorder
  /-- The workers are to stop. -/
  stop : Bool
  /-- The time since the recorder was made. -/
  now : Time
  /-- The two directions. -/
  legs : Direction → Leg

/-- The proxy when its workers have been spawned. -/
def State.new : State := ⟨.new, false, 0, fun _ => .new⟩

/-- What the clock and the sockets do in a step. -/
structure Env where
  /-- How far the clock goes on. -/
  elapsed : Time
  /-- Setting a timeout. -/
  limit : Except IoErrorKind Unit
  /-- Reading the source, which has ended if there are no bytes. -/
  read : Except IoErrorKind (List UInt8)
  /-- Writing to the destination, or how many bytes were written before it failed. -/
  write : Except (IoErrorKind × ℕ) Unit

/-- A direction is changed. -/
def State.set (s : State) (d : Direction) (leg : Leg) : State :=
  { s with legs := Function.update s.legs d leg }

/-- The worker of a direction goes on. -/
def State.go (s : State) (d : Direction) (worker : Worker) : State :=
  s.set d { s.legs d with worker }

/-- A read that timed out is tried again. -/
def isTimeout : IoErrorKind → Bool
  | .wouldBlock | .timedOut => true
  | _ => false

/-- The next step of the worker of a direction, with the clock read already. -/
def advance (t : Texts) (deadline : Time) (s : State) (d : Direction) (env : Env) :
    Option State :=
  let leg := s.legs d
  match leg.worker with
  | .starting =>
    match env.limit with
    | .ok _ => some (s.go d .limiting)
    | .error kind => some (s.go d (.done (.error ("setting proxy read timeout: " ++ t.io kind))))
  | .limiting =>
    match env.limit with
    | .ok _ => some (s.go d .checking)
    | .error kind => some (s.go d (.done (.error ("setting proxy write timeout: " ++ t.io kind))))
  | .checking =>
    if s.stop ∨ deadline ≤ s.now then some (s.go d (.ending .both (.ok ())))
    else some (s.go d .reading)
  | .reading =>
    match env.read with
    | .ok bytes =>
      let chunk := bytes.take bufferBytes
      some (s.set d { leg with worker := .recording chunk, taken := leg.taken ++ chunk })
    | .error kind =>
      if isTimeout kind then some (s.go d .checking)
      else some (s.go d (.refused ("reading " ++ d.channel ++ ": " ++ t.io kind)))
  | .recording chunk =>
    match s.recorder.record s.now d.channel chunk with
    | .ok recorder =>
      some (({ s with recorder }).go d
        (if chunk = [] then .ending .write (.ok ()) else .forwarding chunk))
    | .error e => some (s.go d (.ending (if chunk = [] then .write else .both) (.error e)))
  | .forwarding chunk =>
    match env.write with
    | .ok _ => some (s.set d { leg with worker := .checking, given := leg.given ++ chunk })
    | .error (kind, n) =>
      some (s.set d
        { leg with
          worker := .refused ("forwarding " ++ d.channel ++ ": " ++ t.io kind)
          given := leg.given ++ chunk.take n })
  | .refused message =>
    -- The other worker has stopped, and taken the connection down with it.
    if s.stop then some (s.go d (.done (.ok ())))
    else some (s.go d (.ending .both (.error message)))
  | .ending how result => some (({ s with stop := true }).go d (.closing how result))
  | .closing how result => some (s.set d { leg with worker := .done result, shut := some how })
  | .done _ => none

/-- The next step of the worker of a direction. -/
def step (t : Texts) (deadline : Time) (s : State) (move : Direction × Env) : Option State :=
  advance t deadline { s with now := s.now + move.2.elapsed } move.1 move.2

/-- The steps of the workers, from their start. -/
def run (t : Texts) (deadline : Time) (moves : List (Direction × Env)) : Option State :=
  Machine.run (step t deadline) .new moves

/-- What `run_native_proxy` returns, once both workers have returned. -/
def outcome (s : State) : Option (Except String (List Char)) :=
  match (s.legs .clientToConsole).worker, (s.legs .consoleToClient).worker with
  | .done (.error e), .done _ => some (.error e)
  | .done (.ok _), .done (.error e) => some (.error e)
  | .done (.ok _), .done (.ok _) => some (.ok s.recorder.intoV2)
  | _, _ => none

/-- The bytes that were noted on the channel of a direction. -/
def State.recorded (s : State) (d : Direction) : List UInt8 :=
  (s.recorder.events.filter fun event => event.2.1 = d.channel).flatMap fun event => event.2.2

end Proxy

end Wingcapture

end LibWing
