import LibWing.Console.Main
import LibWing.Osc.Events

/-!
# Subscriptions

A subscription is asked for in one message, and renewed by the same message before it expires.  Its
events are read by a loop that renews it when it is time to.

* `SubscriptionFormat`, `subscriptionMessage` : what is sent;
* `Subscription.State` : a client in the middle of its calls, with what it has sent, taken from its
  socket and returned;
* `Subscription.State.act`, `Subscription.step` : the next thing it does.

Time passes before every step.  A client of its own polls for events: requests on the same socket
are left to the model of the client.
-/

namespace LibWing

namespace Osc

/-- `SubscriptionFormat`. -/
inductive SubscriptionFormat where
  | binary
  | oscTriplet
  | oscNative
  deriving DecidableEq, Repr

/-- `SubscriptionFormat::address`. -/
def SubscriptionFormat.address : SubscriptionFormat → String
  | binary => "/*b"
  | oscTriplet => "/*s"
  | oscNative => "/*S"

/-- `subscribe`, the message. -/
def subscribe (format : SubscriptionFormat) : OscMessage := ⟨format.address, []⟩

/-- `SUBSCRIPTION_EXPIRY`. -/
def subscriptionExpiry : Time := seconds 10

/-- `SUBSCRIPTION_RENEW_MARGIN`. -/
def subscriptionRenewMargin : Time := seconds 5

namespace Subscription

/-- `subscription_message`, on the reply port that is bound. -/
def subscriptionMessage (replyPort : Option UInt16) (format : SubscriptionFormat) : OscMessage :=
  match replyPort with
  | some port => withReplyPort port (subscribe format)
  | none => subscribe format

/-- `SubscriptionState`. -/
structure SubscriptionState where
  /-- What is sent of each change. -/
  format : SubscriptionFormat
  /-- The interval between renewals. -/
  renewInterval : Time
  /-- When the next one is due. -/
  nextRenew : Time
  deriving DecidableEq, Repr

/-- The next renewal is an interval from now. -/
def SubscriptionState.reschedule (sub : SubscriptionState) (now : Time) : SubscriptionState :=
  { sub with nextRenew := now + sub.renewInterval }

/-- A call of the client. -/
inductive Call where
  /-- `subscribe_with_renewal`; `subscribe` has an interval of its own. -/
  | subscribe (format : SubscriptionFormat) (renewInterval : Time)
  | renew
  | pollEvent (timeout : Time)
  deriving DecidableEq, Repr

/-- What the client is about to do; a poll that is under way has a deadline. -/
inductive Phase where
  /-- The caller has the next word. -/
  | idle
  /-- The message of `subscribe_with_renewal` is sent. -/
  | subscribing (format : SubscriptionFormat) (renewInterval : Time)
  /-- The first renewal is scheduled. -/
  | scheduling (format : SubscriptionFormat) (renewInterval : Time)
  /-- The message of `renew` is sent. -/
  | renewing (poll : Option Time)
  /-- The next renewal is scheduled. -/
  | rescheduling (poll : Option Time)
  /-- The head of the loop of `poll_event`. -/
  | polling (deadline : Time)
  /-- It looks at the deadline. -/
  | checking (deadline : Time)
  /-- It looks at the next renewal, and sets the read timeout. -/
  | arming (deadline untilDeadline : Time)
  /-- It waits for a datagram. -/
  | receiving (deadline wait : Time)
  deriving DecidableEq, Repr

/-- A message that was sent. -/
structure Sent where
  /-- When it was sent. -/
  time : Time
  /-- The format it asked for. -/
  format : SubscriptionFormat
  /-- The message itself. -/
  message : OscMessage
  /-- The interval to its renewal. -/
  renewInterval : Time
  /-- It was sent by `poll_event`, on its own account. -/
  automatic : Bool
  deriving DecidableEq, Repr

/-- The result of a call: nothing, or the event of a poll. -/
abbrev Returned := Except ClientError (Option OscEvent)

/-- A client, what it has done, and what it is about to do. -/
structure State where
  /-- The clock. -/
  now : Time
  /-- The subscription, once there is one. -/
  subscription : Option SubscriptionState
  /-- Where in a call the client is. -/
  phase : Phase
  /-- The messages that were sent for subscriptions. -/
  sent : List Sent
  /-- The datagrams taken from the socket, as much of them as the buffer holds. -/
  taken : List Datagram
  /-- What the calls returned. -/
  returned : List Returned

/-- A client that is connected. -/
def State.new (now : Time) : State := ⟨now, none, .idle, [], [], []⟩

/-- What happens at a step. -/
structure Input where
  /-- The time that passes before it. -/
  elapsed : Time
  /-- What the caller asks for, if anything. -/
  call : Option Call
  /-- `local_addr` of the socket of the reply port. -/
  localAddr : Except IoErrorKind Unit
  /-- The outcome of sending the message. -/
  sent : Except IoErrorKind Unit
  /-- The outcome of setting the timeout of the socket. -/
  armed : Except IoErrorKind Unit
  /-- What is received. -/
  received : Except IoErrorKind Datagram

/-- A call returns. -/
def State.returns (s : State) (result : Returned) : State :=
  { s with phase := .idle, returned := s.returned ++ [result] }

/-- The message for a format is sent, and the client goes on. -/
def State.send (replyPort : Option UInt16) (s : State) (i : Input) (format : SubscriptionFormat)
    (renewInterval : Time) (automatic : Bool) (next : Phase) : State :=
  let message := subscriptionMessage replyPort format
  match if replyPort.isSome then i.localAddr else .ok () with
  | .error kind => s.returns (.error (.io kind))
  | .ok _ =>
    match encode message with
    | .error e => s.returns (.error (.codec (.error e)))
    | .ok _ =>
      match i.sent with
      | .error kind => s.returns (.error (.io kind))
      | .ok _ =>
        { s with
          phase := next
          sent := s.sent ++ [⟨s.now, format, message, renewInterval, automatic⟩] }

/-- `recv`, on a socket with its timeout set: what `poll_event` makes of a datagram. -/
def report (bytes : Datagram) : Returned :=
  match decode bytes with
  | .ok msg => .ok (some (classifyEvent msg))
  | .error fault => .error (.codec fault)

/-- A call begins. -/
def State.begin (s : State) : Call → State
  | .subscribe format renewInterval => { s with phase := .subscribing format renewInterval }
  | .renew =>
    match s.subscription with
    | none => s.returns (.ok none)
    | some _ => { s with phase := .renewing none }
  | .pollEvent timeout =>
    match s.subscription with
    | none => s.returns (.error (.codec (.error
        (.malformed "poll_event called with no active subscription"))))
    | some _ => { s with phase := .polling (s.now + timeout) }

/-- How long a poll waits for a datagram. -/
def waitTime (untilDeadline untilRenew : Time) : Time :=
  max (min untilDeadline untilRenew) (millis 1)

/-- The client does the next thing. -/
def State.act (replyPort : Option UInt16) (s : State) (i : Input) : State :=
  match s.phase with
  | .idle => i.call.elim s s.begin
  | .subscribing format renewInterval =>
    s.send replyPort i format renewInterval false (.scheduling format renewInterval)
  | .scheduling format renewInterval =>
    { s with
      subscription := some ⟨format, renewInterval, s.now + renewInterval⟩ }.returns (.ok none)
  | .renewing poll =>
    match s.subscription with
    | none => s.returns (.ok none)
    | some sub =>
      s.send replyPort i sub.format sub.renewInterval poll.isSome (.rescheduling poll)
  | .rescheduling poll =>
    let subscription := s.subscription.map fun sub => sub.reschedule s.now
    match poll with
    | none => { s with subscription }.returns (.ok none)
    | some deadline => { s with subscription, phase := .checking deadline }
  | .polling deadline =>
    if s.subscription.any fun sub => sub.nextRenew ≤ s.now then
      { s with phase := .renewing (some deadline) }
    else { s with phase := .checking deadline }
  | .checking deadline =>
    if deadline - s.now = 0 then s.returns (.error .timeout)
    else { s with phase := .arming deadline (deadline - s.now) }
  | .arming deadline untilDeadline =>
    let untilRenew := s.subscription.elim untilDeadline fun sub => sub.nextRenew - s.now
    match i.armed with
    | .error kind => s.returns (.error (.io kind))
    | .ok _ => { s with phase := .receiving deadline (waitTime untilDeadline untilRenew) }
  | .receiving deadline _ =>
    match i.received with
    | .ok bytes =>
      let bytes := bytes.take maxPacketBytes
      { s with taken := s.taken ++ [bytes] }.returns (report bytes)
    | .error .wouldBlock => { s with phase := .polling deadline }
    | .error .timedOut => { s with phase := .polling deadline }
    | .error kind => s.returns (.error (.io kind))

/-- The state when the time before a step has passed. -/
def State.after (s : State) (i : Input) : State := { s with now := s.now + i.elapsed }

/-- A step. -/
def step (replyPort : Option UInt16) (s : State) (i : Input) : State := (s.after i).act replyPort i

/-- The client after some steps. -/
def run (replyPort : Option UInt16) (s : State) (inputs : List Input) : State :=
  inputs.foldl (step replyPort) s

end Subscription

end Osc

end LibWing
