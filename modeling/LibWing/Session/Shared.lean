import LibWing.Console.Reachable
import LibWing.Lib.Interleave

/-!
# What the clones of a console share

Clones of a `WingConsole` share its streams, its parser, its meters, its gates and its flags.  A
section of the program that holds a lock, or one atomic access, is one step.

* `Shared` : the shared state.  `reader` holds the parser, both streams and `stream_tainted`;
* `Event` : what happened, in the order in which it happened.  The log, the number of the installed
  session and the phase of the reconnect are a history that no program reads;
* `Env` : what the environment decides at a step.
-/

namespace LibWing

open Interleave

namespace Session

/-- `METERS_KEEP_ALIVE_SECONDS`. -/
def metersKeepAliveSeconds : ℕ := 3

/-- `_WingConsoleMeters`, with the port of the socket in place of the socket. -/
structure Meters where
  /-- The port that frames are sent to. -/
  port : Option UInt16
  /-- The id of the subscription. -/
  activeMeterId : Option UInt16
  /-- The id of the next one. -/
  nextMeterId : UInt16
  /-- When the next renewal is due. -/
  keepAliveMetersTimer : Time

/-- How far the reconnect that holds the gate has come. -/
inductive Phase where
  /-- There is none, or it has not announced itself. -/
  | idle
  /-- `reconnecting` is set. -/
  | announced
  /-- The new streams are in place. -/
  | swapped
  /-- The meter subscription is forgotten. -/
  | metersReset
  deriving DecidableEq, Repr

/-- What a step did.  A call is known by `since`, the length of the log when it began. -/
inductive Happening where
  /-- A reconnect loaded `session_generation`. -/
  | sampled (generation : ℕ)
  /-- A reconnect put the streams of a new session in place. -/
  | swapped (since session : ℕ) (now : Time) (rsock : List Poll)
  /-- A reconnect bumped `session_generation`. -/
  | published (since session : ℕ)
  /-- A reconnect returned `Ok`, with the number of its attempts. -/
  | reconnected (since attempts session : ℕ)
  | reconnectFailed (since : ℕ) (error : Error)
  /-- A call timed out on a session and tainted it. -/
  | tainted (since session : ℕ) (call : Console.ReaderCall)
      (result : Except Error Console.Reply)
  /-- A call under the read gate returned. -/
  | returned (since session : ℕ) (call : Console.ReaderCall)
      (result : Except Error Console.Reply)
  /-- `set_nodes` or `restore` loaded `session_generation`, with `session` installed. -/
  | bulkBegan (generation session : ℕ)
  /-- A batch was handed to the transport of a session. -/
  | handed (since session : ℕ) (reconnecting streamTainted : Bool) (bytes : List UInt8)
  /-- A batch was not written; its items have these places in the results of the call. -/
  | unwritten (since : ℕ) (slots : List ℕ)
  | bulkReturned (since : ℕ) (results : List (Result Unit))
  /-- The message of a `request_meter` was written on a session. -/
  | subscribed (session : ℕ) (id : UInt16) (phase : Phase)
  /-- A meter keepalive was written on a session. -/
  | renewed (session : ℕ) (id : UInt16) (phase : Phase)
  deriving DecidableEq

/-- What a step of a thread did. -/
structure Event where
  /-- Who did it. -/
  thread : ℕ
  /-- What was done. -/
  happening : Happening
  deriving DecidableEq

/-- What the clones share. -/
structure Shared where
  /-- The reader, with the transport. -/
  reader : Console
  /-- A reconnect is going on. -/
  reconnecting : Bool
  /-- How many sessions have been published after the first. -/
  sessionGeneration : ℕ
  /-- How many calls of `reconnect` are going on. -/
  pendingReconnects : ℕ
  /-- The thread that holds `reconnect_gate`. -/
  reconnectGate : Option ℕ
  /-- The thread that holds `read_gate`. -/
  readGate : Option ℕ
  /-- The subscription to meters. -/
  mtrs : Meters
  /-- The meter socket is bound. -/
  hasMeterSocket : Bool
  /-- What is known of the firmware. -/
  firmware : Option String
  /-- How many times streams have been swapped in. -/
  installed : ℕ
  /-- Where a reconnect stands. -/
  phase : Phase
  /-- What has happened. -/
  log : List Event

/-- A console as `from_boxed` builds it. -/
def Shared.new (now : Time) (rsock : List Poll) : Shared where
  reader := .new now rsock
  reconnecting := false
  sessionGeneration := 0
  pendingReconnects := 0
  reconnectGate := none
  readGate := none
  mtrs := ⟨none, none, 1, now + seconds metersKeepAliveSeconds⟩
  hasMeterSocket := false
  firmware := none
  installed := 0
  phase := .idle
  log := []

/-- Put down what happened. -/
def Shared.record (s : Shared) (t : ℕ) (h : Happening) : Shared :=
  { s with log := s.log ++ [⟨t, h⟩] }

/-- A message that reaches the transport. -/
def Shared.write (s : Shared) (bytes : List UInt8) : Shared :=
  { s with reader := { s.reader with wsock := s.reader.wsock ++ [bytes] } }

/-- What the environment decides at a step. -/
structure Env where
  /-- `Instant::now()`. -/
  now : Time
  /-- What a call under the read gate observes while it runs. -/
  world : World
  /-- `handshake_streams`: what the new transport will do. -/
  handshake : Result (List Poll)
  /-- `probe_firmware`. -/
  firmware : Option String
  /-- The outcome of a `write_all`. -/
  write : Except IoErrorKind Unit
  /-- The outcome of binding the meter socket, with its port. -/
  bind : Except IoErrorKind UInt16

/-- A program of a clone. -/
abbrev Thread := Prog Shared Env

end Session

end LibWing
