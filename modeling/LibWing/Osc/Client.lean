import LibWing.Lib.Path
import LibWing.Osc.Codec
import LibWing.Session.Dump

/-!
# The OSC client

A request is sent in a datagram, and its reply is picked out of whatever the socket receives until
the deadline.  Other messages are kept for the caller, and duplicates of the reply are drained from
the socket.

* `Tick` : what the clock and the socket do around one receive;
* `Osc.request` : a request, in two parts: the wait for the reply and the drain behind it;
* `Osc.Call.run` : the calls of the client that touch its buffer.

What is sent does not come back in the model: the datagrams that arrive are any datagrams.
-/

namespace LibWing

namespace Osc

/-- `UNSOLICITED_CAP`. -/
def unsolicitedCap : ℕ := 1024

/-- `DUPLICATE_DRAIN_CAP`. -/
def duplicateDrainCap : ℕ := 64

/-! ### Equal messages -/

/-- `==` of arguments: floats are compared as floats. -/
def OscArg.eq : OscArg → OscArg → Bool
  | int v, int v' => v == v'
  | float v, float v' => v.eq v'
  | str v, str v' => v == v'
  | blob v, blob v' => v == v'
  | _, _ => false

/-- `==` of lists of arguments. -/
def argsEq : List OscArg → List OscArg → Bool
  | [], [] => true
  | a :: args, a' :: args' => a.eq a' && argsEq args args'
  | _, _ => false

/-- `==` of messages. -/
def OscMessage.eq (msg msg' : OscMessage) : Bool :=
  msg.addr == msg'.addr && argsEq msg.args msg'.args

/-! ### Replies -/

/-- The value of a hexadecimal digit. -/
def hexDigit (c : Char) : Option ℕ :=
  if '0' ≤ c ∧ c ≤ '9' then some (c.toNat - '0'.toNat)
  else if 'a' ≤ c ∧ c ≤ 'f' then some (c.toNat - 'a'.toNat + 10)
  else if 'A' ≤ c ∧ c ≤ 'F' then some (c.toNat - 'A'.toNat + 10)
  else none

/-- The number of some hexadecimal digits behind a number. -/
def hexValue : List Char → ℕ → Option ℕ
  | [], n => some n
  | c :: cs, n => do
    let digit ← hexDigit c
    hexValue cs (16 * n + digit)

/-- `u32::from_str_radix(hex, 16)`: a plus sign may stand in front of the digits. -/
def fromStrRadix16 (hex : String) : Option UInt32 :=
  let digits := match hex.toList with
    | '+' :: digits => digits
    | digits => digits
  if digits = [] then none
  else (hexValue digits 0).bind fun n => if n < 2 ^ 32 then some (UInt32.ofNat n) else none

/-- `strip_reply_port`. -/
def stripReplyPort (addr : String) : String :=
  match Path.stripPrefix "/%" addr with
  | none => addr
  | some rest =>
    let digits := rest.toList.takeWhile Char.isDigit
    let behind := rest.toList.drop digits.length
    if digits ≠ [] ∧ behind.head? = some '/' then String.ofList behind else addr

/-- `reply_matches`, on the addresses of the request and the reply. -/
def replyMatches (map : Session.PropertyMap) (request reply : String) : Bool :=
  let request := stripReplyPort request
  let reply := (Path.stripSuffix "*" reply).getD reply
  reply == request ||
    match ((Path.stripPrefix "/#" request).bind fromStrRadix16).bind fun id =>
        map.byId id.toInt32 with
    | none => false
    | some names => names.any fun (name, _) => name == reply

/-! ### The socket and the buffer -/

/-- The errors of a request. -/
inductive ClientError where
  /-- A message that cannot be encoded, or a fault of the decoder. -/
  | codec (fault : Fault)
  | io (kind : IoErrorKind)
  | timeout
  deriving DecidableEq, Repr

/-- A datagram. -/
abbrev Datagram := List UInt8

/-- What the clock and the socket do around one receive. -/
structure Tick where
  /-- The deadline has passed when the clock is read. -/
  expired : Bool
  /-- The datagrams that reach the socket until the receive is answered. -/
  arrivals : List Datagram
  /-- The error that is received in their place. -/
  failure : Option IoErrorKind

/-- The receive: the first datagram of the queue, as much of it as the buffer holds. -/
def Tick.recv (tick : Tick) (queue : List Datagram) : Except IoErrorKind Datagram × List Datagram :=
  match tick.failure, queue ++ tick.arrivals with
  | some kind, queue => (.error kind, queue)
  | none, [] => (.error .timedOut, [])
  | none, bytes :: queue => (.ok (bytes.take maxPacketBytes), queue)

/-- The buffer of `WingOscClient`. -/
structure Client where
  /-- The messages that answered no request. -/
  unsolicited : List OscMessage
  /-- How many of them were dropped. -/
  unsolicitedDropped : UInt64

/-- A client, and the datagrams that wait at its socket. -/
structure World where
  /-- The client. -/
  client : Client
  /-- The datagrams that wait in its socket. -/
  queue : List Datagram

/-- `WingOscClient::connect_addr`. -/
def Client.connect : Client := ⟨[], 0⟩

/-- `buffer_unsolicited`. -/
def Client.bufferUnsolicited (c : Client) (msg : OscMessage) : Client :=
  if unsolicitedCap ≤ c.unsolicited.length then
    { unsolicited := c.unsolicited.drop 1 ++ [msg], unsolicitedDropped := c.unsolicitedDropped + 1 }
  else { c with unsolicited := c.unsolicited ++ [msg] }

/-! ### A request -/

/-- The loop of `drain_duplicate_replies`, for some more rounds. -/
def drainLoop (reply : OscMessage) : ℕ → (ℕ → Tick) → World → World
  | 0, _, w => w
  | n + 1, ticks, w =>
    if (ticks 0).expired then w
    else
      match (ticks 0).recv w.queue with
      | (.error _, queue) => { w with queue }
      | (.ok bytes, queue) =>
        match decode bytes with
        | .ok msg =>
          if msg.eq reply then drainLoop reply n (fun i => ticks (i + 1)) { w with queue }
          -- One message that is no duplicate ends the drain.
          else { client := w.client.bufferUnsolicited msg, queue }
        | .error (.error (.malformed _)) =>
          drainLoop reply n (fun i => ticks (i + 1)) { w with queue }
        | .error _ => { w with queue }

/-- The error that `recv` makes of an error of the socket. -/
def recvError : IoErrorKind → ClientError
  | .wouldBlock | .timedOut => .timeout
  | kind => .io kind

/-- The loop of `request`, up to the reply: `ticks` is what happens until the deadline. -/
def waitReply (map : Session.PropertyMap) (addr : String) :
    List Tick → World → Except ClientError OscMessage × World
  | [], w => (.error .timeout, w)
  | tick :: ticks, w =>
    if tick.expired then (.error .timeout, w)
    else
      match tick.recv w.queue with
      | (.error kind, queue) => (.error (recvError kind), { w with queue })
      | (.ok bytes, queue) =>
        match decode bytes with
        | .error (.error (.malformed _)) => waitReply map addr ticks { w with queue }
        | .error fault => (.error (.codec fault), { w with queue })
        | .ok reply =>
          if replyMatches map addr reply.addr then (.ok reply, { w with queue })
          else waitReply map addr ticks { client := w.client.bufferUnsolicited reply, queue }

/-- What happens during a request. -/
structure Env where
  /-- The error of sending the datagram. -/
  sendFailure : Option IoErrorKind
  /-- The receives of the wait; behind the last one, the deadline passes. -/
  wait : List Tick
  /-- The shorter read timeout of the drain cannot be set. -/
  drainRefused : Bool
  /-- The receives of the drain. -/
  drain : ℕ → Tick

/-- `drain_duplicate_replies`. -/
def drainDuplicateReplies (env : Env) (reply : OscMessage) (w : World) : World :=
  if env.drainRefused then w else drainLoop reply duplicateDrainCap env.drain w

/-- `WingOscClient::request`. -/
def request (map : Session.PropertyMap) (msg : OscMessage) (env : Env) (w : World) :
    Except ClientError OscMessage × World :=
  match encode msg with
  | .error e => (.error (.codec (.error e)), w)
  | .ok _ =>
    match env.sendFailure with
    | some kind => (.error (.io kind), w)
    | none =>
      match waitReply map msg.addr env.wait w with
      | (.ok reply, w) => (.ok reply, drainDuplicateReplies env reply w)
      | (.error e, w) => (.error e, w)

/-! ### Calls -/

/-- `take_unsolicited`. -/
def Client.takeUnsolicited (c : Client) : List OscMessage × Client :=
  (c.unsolicited, { c with unsolicited := [] })

/-- `take_unsolicited_dropped`. -/
def Client.takeUnsolicitedDropped (c : Client) : UInt64 × Client :=
  (c.unsolicitedDropped, { c with unsolicitedDropped := 0 })

/-- A call of the client. -/
inductive Call where
  | request (msg : OscMessage) (env : Env)
  | takeUnsolicited
  | takeUnsolicitedDropped

/-- The client and its socket after a call. -/
def Call.run (map : Session.PropertyMap) : Call → World → World
  | .request msg env, w => (Osc.request map msg env w).2
  | .takeUnsolicited, w => { w with client := w.client.takeUnsolicited.2 }
  | .takeUnsolicitedDropped, w => { w with client := w.client.takeUnsolicitedDropped.2 }

/-- The client and its socket after some calls. -/
def runCalls (map : Session.PropertyMap) (calls : List Call) (w : World) : World :=
  calls.foldl (fun w call => call.run map w) w

end Osc

end LibWing
