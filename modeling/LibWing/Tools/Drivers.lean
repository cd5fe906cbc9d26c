import LibWing.Tools.Proxy

/-!
# The capture drivers

Two sessions are captured without the proxy.  One asks a console who it is; the other subscribes to
two reports of the meters, waits for the first datagram of each, and renews it.

* `Round` : what the clock and a socket do while a driver listens;
* `captureDiscoverySession` : the question, and the answer;
* `meterSubscribeWire`, `meterRenewWire` : what is sent for a report;
* `captureMeterSession` : the two reports.

The sockets are bound and connected before the sessions start, and the clock is the time since then.
-/

namespace LibWing

namespace Wingcapture

namespace Driver

open Proxy (offsetAt)

variable {Addr Ip : Type} [DecidableEq Addr] [DecidableEq Ip]

/-- What happens in a round of a loop that listens. -/
structure Round (Addr : Type) where
  /-- How far the clock goes on until the deadline is looked at, … -/
  elapsed : Time
  /-- The outcome of setting the timeout of the socket. -/
  armed : Except IoErrorKind Unit
  /-- What is received, and from where. -/
  received : Except IoErrorKind (List UInt8 × Addr)
  /-- … and from there until a datagram has been received. -/
  waited : Time

/-! ### Discovery -/

/-- The size of the buffer of a discovery. -/
def discoveryBytes : ℕ := 2048

/-- How many datagrams a driver receives. -/
def maxDatagrams : ℕ := 100

/-- The question to a console. -/
def question : List UInt8 := utf8 "WING?"

/-- The loop of `capture_discovery_session`, at most so many times; behind the last round, the
deadline has passed. -/
def discoveryLoop (t : Texts) (target : Addr) (timeout : Time) :
    ℕ → List (Round Addr) → Time → Except String (Time × List UInt8)
  | 0, _, _ => .error "discovery capture exceeded 100 datagrams"
  | _ + 1, [], _ => .error "discovery capture deadline expired"
  | n + 1, round :: rounds, now =>
    let now := now + round.elapsed
    if timeout ≤ now then .error "discovery capture deadline expired"
    else
      match round.armed with
      | .error kind => .error ("setting discovery timeout: " ++ t.io kind)
      | .ok _ =>
        match round.received with
        | .error kind => .error ("receiving discovery reply: " ++ t.io kind)
        | .ok (datagram, source) =>
          if source = target then .ok (now + round.waited, datagram.take discoveryBytes)
          else discoveryLoop t target timeout n rounds (now + round.waited)

/-- The events of a discovery. -/
def discoveryEvents (now : Time) (reply : List UInt8) : List CapturedEvent :=
  [(0, "D>", question), (offsetAt now, "D<", reply)]

/-- `capture_discovery_session`. -/
def captureDiscoverySession (t : Texts) (target : Addr) (timeout : Time)
    (sent : Except IoErrorKind Unit) (rounds : List (Round Addr)) : Except String (List Char) :=
  match sent with
  | .error kind => .error ("sending discovery request: " ++ t.io kind)
  | .ok _ =>
    (discoveryLoop t target timeout maxDatagrams rounds 0).map fun (now, reply) =>
      eventsToV2 "discovery_raw" "direct WING discovery request and reply"
        (discoveryEvents now reply)

/-! ### Meters -/

/-- `meter_subscribe_wire`. -/
def meterSubscribeWire (t : Texts) (port : UInt16) (reportId : UInt32) (meter : List UInt8) :
    Except String (List UInt8) :=
  (encodeChannel 3 ([0xd3] ++ BigEndian.toBe16 port ++ [0xd4] ++ BigEndian.toBe32
    reportId ++ [0xdc] ++
    meter ++ [0xde])).mapError fun e => "encoding meter subscription: " ++ t.error e

/-- `meter_renew_wire`. -/
def meterRenewWire (t : Texts) (reportId : UInt32) : Except String (List UInt8) := do
  let wire ← (encodeChannel 3 ([0xd4] ++ BigEndian.toBe32 reportId)).mapError fun e =>
    "encoding meter renewal: " ++ t.error e
  let flush ← (encodeChannel 1 []).mapError fun e => "flushing meter renewal: " ++ t.error e
  return wire ++ flush

/-- The size of the buffer of the meters. -/
def reportBytes : ℕ := 8192

/-- A datagram is the report of a token. -/
def isReport (token : UInt16) : List UInt8 → Bool
  | a :: b :: c :: e :: _ => BigEndian.fromBe16 a b = token && c = 0 && e = 0
  | _ => false

/-- What happens while a report is captured. -/
structure ReportEnv (Ip : Type) where
  /-- The write of the subscription, and how long it takes. -/
  subscribed : Except IoErrorKind Unit
  subscribing : Time
  /-- The rounds of waiting for the report. -/
  rounds : List (Round Ip)
  /-- The write of the renewal, and how long it takes. -/
  renewed : Except IoErrorKind Unit
  renewing : Time

/-- The meter driver on its way. -/
structure Driving where
  /-- The clock. -/
  now : Time
  /-- How many datagrams were received. -/
  datagrams : ℕ
  /-- What was recorded. -/
  events : List CapturedEvent

/-- Some time passes, and an event is noted. -/
def Driving.note (d : Driving) (elapsed : Time) (channel : String) (bytes : List UInt8) :
    Driving where
  now := d.now + elapsed
  datagrams := d.datagrams
  events := d.events ++ [(offsetAt (d.now + elapsed), channel, bytes)]

/-- The loop that waits for a report; behind the last round, the deadline has passed. -/
def awaitReport (t : Texts) (reportId : UInt32) (token : UInt16) (expectedSource : Ip)
    (timeout : Time) : List (Round Ip) → Driving → Except String Driving
  | [], d =>
    if maxDatagrams < d.datagrams + 1 then .error "meter capture exceeded 100 datagrams"
    else .error "meter capture deadline expired"
  | round :: rounds, d =>
    let d := { d with now := d.now + round.elapsed, datagrams := d.datagrams + 1 }
    if maxDatagrams < d.datagrams then .error "meter capture exceeded 100 datagrams"
    else if timeout ≤ d.now then .error "meter capture deadline expired"
    else
      match round.armed with
      | .error kind => .error ("setting meter timeout: " ++ t.io kind)
      | .ok _ =>
        match round.received with
        | .error kind =>
          .error ("receiving meter report " ++ toString reportId ++ ": " ++ t.io kind)
        | .ok (datagram, source) =>
          let bytes := datagram.take reportBytes
          if source = expectedSource ∧ isReport token bytes = true then
            .ok (d.note round.waited "M<" bytes)
          else
            awaitReport t reportId token expectedSource timeout rounds
              { d with now := d.now + round.waited }

/-- The id of the report of a token: the token, and the port the report is sent to. -/
def reportIdOf (token port : UInt16) : UInt32 := token.toUInt32 <<< 16 ||| port.toUInt32

/-- One pass of the loop of `capture_meter_session` over the tokens. -/
def captureReport (t : Texts) (port : UInt16) (expectedSource : Ip) (timeout : Time)
    (token : UInt16)
    (meter : List UInt8) (env : ReportEnv Ip) (d : Driving) : Except String Driving := do
  let reportId := reportIdOf token port
  let subscribe ← meterSubscribeWire t port reportId meter
  env.subscribed.mapError fun kind =>
    "sending meter subscription " ++ toString reportId ++ ": " ++ t.io kind
  let d := d.note env.subscribing "M>" subscribe
  let d ← awaitReport t reportId token expectedSource timeout env.rounds d
  let renew ← meterRenewWire t reportId
  env.renewed.mapError fun kind =>
    "sending meter renewal " ++ toString reportId ++ ": " ++ t.io kind
  return d.note env.renewing "M>" renew

/-- What happens during a capture of the meters. -/
structure MeterEnv (Ip : Type) where
  /-- The port of the meter socket. -/
  port : Except IoErrorKind UInt16
  /-- The write of the handshake, and how long it takes. -/
  greeted : Except IoErrorKind Unit
  greeting : Time
  /-- What happens to the first meter. -/
  first : ReportEnv Ip
  /-- What happens to the second one. -/
  second : ReportEnv Ip

/-- `capture_meter_session`: channel 1, and then the RTA. -/
def captureMeterSession (t : Texts) (expectedSource : Ip) (timeout : Time) (env : MeterEnv Ip) :
    Except String (List Char) := do
  let port ← env.port.mapError fun kind => "reading meter socket: " ++ t.io kind
  let handshake ← (encodeChannel 1 []).mapError fun e => "encoding Native handshake: " ++ t.error e
  env.greeted.mapError fun kind => "sending Native handshake: " ++ t.io kind
  -- The handshake is noted at the start, whatever the clock says.
  let d : Driving := ⟨env.greeting, 0, [(0, "N>", handshake)]⟩
  let d ← captureReport t port expectedSource timeout 1 [0xa0, 0x00] env.first d
  let d ← captureReport t port expectedSource timeout 2 [0xaa] env.second d
  return eventsToV2 "meter_matrix_raw"
    "two Native meter subscriptions, token-bearing reports, and renewals" d.events

end Driver

end Wingcapture

end LibWing
