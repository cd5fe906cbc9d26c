import LibWing.Console.Main
import LibWing.Lib.KeepFirst
import LibWing.Osc.NodePairs

/-!
# Discovery

Consoles on the network answer a broadcast; a console is connected to by the address its answer came
from.

* `DiscoveryInfo` : an answer, and how it is read;
* `scanOn` : the broadcast and what is heard of it;
* `probeFirmware` : the same question to one host;
* `connect` : the connection to a host, or to the first console that answers.

An address of a host is anything that can be told apart and displayed.
-/

namespace LibWing

/-- `DiscoveryInfo`. -/
structure DiscoveryInfo where
  /-- The address. -/
  ip : String
  /-- The name of the console. -/
  name : String
  /-- The model. -/
  model : String
  /-- The serial number. -/
  serial : String
  /-- The version of the firmware. -/
  firmware : String
  deriving DecidableEq, Repr

/-- `DiscoveryInfo::parse`. -/
def DiscoveryInfo.parse (reply : String) : Option DiscoveryInfo :=
  match Osc.splitComma reply with
  | wing :: ip :: name :: model :: serial :: firmware :: _ =>
    if wing = "WING" then some ⟨ip, name, model, serial, firmware⟩ else none
  | _ => none

namespace Discovery

variable {Ip : Type} [DecidableEq Ip] (display : Ip → String)

/-- `DiscoveryInfo::from_datagram`. -/
def fromDatagram (payload : List UInt8) (source : Ip) : Option DiscoveryInfo :=
  ((fromUtf8 payload).bind DiscoveryInfo.parse).map fun info => { info with ip := display source }

/-! ### The scan -/

/-- A round of a loop that listens: the clock at its head, and what `recv_from` returns. -/
structure Tick (Ip : Type) where
  /-- When the round begins. -/
  now : Time
  /-- `set_read_timeout`, where the loop sets it. -/
  armed : Except IoErrorKind Unit
  /-- What is received, and from where. -/
  received : Except IoErrorKind (List UInt8 × Ip)

/-- The size of the buffer of `recv_from`; the rest of a longer datagram is dropped. -/
def bufferBytes : ℕ := 1024

/-- How often nothing may be received, and how many datagrams may be. -/
def maxAttempts : ℕ := 10

def maxPackets : ℕ := 100

/-- What identifies a console. -/
def identity (info : DiscoveryInfo) : String × String := (info.ip, info.serial)

/-- A scan on its way. -/
structure Scan where
  /-- The consoles that were found. -/
  results : List DiscoveryInfo
  /-- How often nothing was received. -/
  attempts : ℕ
  /-- How many datagrams were received. -/
  packets : ℕ
  /-- How often the question was broadcast. -/
  sent : ℕ

/-- The loop of `scan_on`; behind the last round, the deadline has passed. -/
def scanLoop (stopOnFirst : Bool) (deadline : Time) : List (Tick Ip) → Scan → Scan
  | [], s => s
  | tick :: ticks, s =>
    if s.attempts < maxAttempts ∧ s.packets < maxPackets ∧ tick.now < deadline then
      match tick.received with
      | .ok (payload, source) =>
        let s := { s with packets := s.packets + 1 }
        match fromDatagram display (payload.take bufferBytes) source with
        | none => scanLoop stopOnFirst deadline ticks s
        | some info =>
          if s.results.any fun seen => seen.ip == info.ip && seen.serial == info.serial then
            scanLoop stopOnFirst deadline ticks s
          else
            let s := { s with results := s.results ++ [info] }
            if stopOnFirst then s else scanLoop stopOnFirst deadline ticks s
      | .error _ =>
        scanLoop stopOnFirst deadline ticks
          { s with attempts := s.attempts + 1, sent := s.sent + 1 }
    else s

/-- What happens during a scan. -/
structure ScanEnv (Ip : Type) where
  /-- The socket is bound and may broadcast. -/
  bound : Except IoErrorKind Unit
  /-- The read timeout is set. -/
  armed : Except IoErrorKind Unit
  /-- The clock, when the deadline is set. -/
  started : Time
  /-- The first broadcast. -/
  asked : Except IoErrorKind Unit
  /-- The rounds of the scan. -/
  ticks : List (Tick Ip)

/-- `scan_on`. -/
def scanOn (stopOnFirst : Bool) (window : Time) (env : ScanEnv Ip) : Result Scan :=
  match env.armed, env.asked with
  | .error kind, _ => .error (.io kind)
  | .ok _, .error kind => .error (.io kind)
  | .ok _, .ok _ =>
    .ok (scanLoop display stopOnFirst (env.started + window) env.ticks ⟨[], 0, 0, 1⟩)

/-- `scan`. -/
def scan (stopOnFirst : Bool) (env : ScanEnv Ip) : Result (List DiscoveryInfo) :=
  match env.bound with
  | .error kind => .error (.io kind)
  | .ok _ => (scanOn display stopOnFirst (seconds 5) env).map Scan.results

/-! ### The probe -/

/-- The loop of `probe_firmware`. -/
def probeLoop (ip : Ip) (deadline : Time) : List (Tick Ip) → Option String
  | [] => none
  | tick :: ticks =>
    if tick.now ≤ deadline then
      match tick.armed, tick.received with
      | .error _, _ => none
      | .ok _, .error _ => none
      | .ok _, .ok (payload, source) =>
        if source = ip then (fromDatagram display (payload.take bufferBytes) ip).map (·.firmware)
        else probeLoop ip deadline ticks
    else none

/-- What happens during a probe. -/
structure ProbeEnv (Ip : Type) where
  /-- The outcome of binding the socket. -/
  bound : Except IoErrorKind Unit
  /-- The outcome of the request. -/
  asked : Except IoErrorKind Unit
  /-- When the probe begins. -/
  started : Time
  /-- Its rounds. -/
  ticks : List (Tick Ip)

/-- `probe_firmware`. -/
def probeFirmware (ip : Ip) (env : ProbeEnv Ip) : Option String :=
  match env.bound, env.asked with
  | .ok _, .ok _ => probeLoop display ip (env.started + millis 300) env.ticks
  | _, _ => none

/-! ### The connection -/

/-- The errors of `connect`. -/
inductive ConnectError where
  | console (e : Error)
  /-- `DiscoveryError`: no console has answered. -/
  | discovery
  deriving DecidableEq, Repr

/-- A console that is connected: its peer, and the firmware it is known by. -/
structure Connected (Ip : Type) where
  /-- The host of the session. -/
  peerIp : Ip
  /-- What is known of its firmware. -/
  firmware : Option String

/-- What happens during `connect`. -/
structure ConnectEnv (Ip : Type) where
  /-- The scan for a console without a name. -/
  scan : ScanEnv Ip
  /-- `to_socket_addrs`. -/
  resolve : String → Except IoErrorKind (List Ip)
  /-- The handshake with a host. -/
  handshake : Ip → Result Unit
  /-- The probe of a host. -/
  probe : Ip → ProbeEnv Ip

/-- The host that `connect` looks up, and its firmware, if the scan has heard it. -/
def connectTarget (hostOrIp : Option String) (env : ScanEnv Ip) :
    Except ConnectError (String × Option String) :=
  match hostOrIp with
  | some host => .ok (host, none)
  | none =>
    match scan display true env with
    | .error e => .error (.console e)
    | .ok [] => .error .discovery
    | .ok (device :: _) => .ok (device.ip, some device.firmware)

/-- The loop of `connect` over the addresses of a host. -/
def connectLoop (env : ConnectEnv Ip) (firmwareHint : Option String) :
    List Ip → Option Error → Result (Connected Ip)
  | [], lastConnectError => .error (lastConnectError.getD .connectionError)
  | addr :: addrs, _ =>
    match env.handshake addr with
    | .ok _ => .ok ⟨addr, firmwareHint.or (probeFirmware display addr (env.probe addr))⟩
    | .error e => connectLoop env firmwareHint addrs (some e)

/-- `connect`. -/
def connect (hostOrIp : Option String) (env : ConnectEnv Ip) : Except ConnectError (Connected Ip) :=
  match connectTarget display hostOrIp env.scan with
  | .error e => .error e
  | .ok (ip, firmwareHint) =>
    match env.resolve ip with
    | .error kind => .error (.console (.io kind))
    | .ok addrs => (connectLoop display env firmwareHint addrs none).mapError .console

end Discovery

end LibWing
