import Mathlib.Data.Finset.Insert
import LibWing.Console.Read
import LibWing.Tools.Streams

/-!
# Decoding a capture

What a console sent in a capture is read by a `WingConsole` over the captured bytes.

* `memoryTransport` : the transport over these bytes, which gives them one at a time;
* `Control` : the values and the definitions that were received, and how many replies ended;
* `decodeControl` : reading responses until the capture is exhausted; a capture is truncated if the
  read that found its end had taken a byte.
-/

namespace LibWing

namespace Compare

open Stateful

/-- A value, as it is compared. -/
inductive Value where
  | integer (value : Int32)
  | float (bits : UInt32)
  | string (value : String)
  deriving DecidableEq, Repr

/-- `Value::from_node`. -/
def Value.fromNode (data : WingNodeData) : Value :=
  match data.stringValue with
  | some value => .string value
  | none =>
    match data.floatValue with
    | some value => .float value.bits
    | none => .integer (data.intValue.getD 0)

/-- What was received: the values of each id in order, its definitions, and the ends of replies. -/
structure Control where
  /-- The values of each node, in order. -/
  values : Int32 → List Value
  /-- The definitions of each node. -/
  definitions : Int32 → Finset (List UInt8)
  /-- How many replies have ended. -/
  requestEnds : ℕ

/-- `Control::default`. -/
def Control.default : Control := ⟨fun _ => [], fun _ => ∅, 0⟩

/-- Take a response. -/
def Control.add (control : Control) : WingResponse → Except Error Control
  | .nodeData id data =>
    .ok { control with
      values := Function.update control.values id (control.values id ++ [.fromNode data]) }
  | .nodeDef definition =>
    match definition.toWireBytes with
    | .error e => .error e
    | .ok body =>
      .ok { control with
        definitions := Function.update control.definitions definition.id
          (insert body (control.definitions definition.id)) }
  | .requestEnd => .ok { control with requestEnds := control.requestEnds + 1 }

/-- The errors of `decode_control`. -/
inductive ControlError where
  /-- `truncated Native response at capture end`. -/
  | truncated
  /-- The text of an error of the console. -/
  | console (e : Error)
  deriving DecidableEq

/-- `ErrorKind::UnexpectedEof`. -/
def unexpectedEof : IoErrorKind := .other 0

/-- `MemoryTransport`: each read gives one byte; when none is left, reading fails. -/
def memoryTransport (bytes : List UInt8) : List Poll :=
  bytes.map (fun byte => .read (.ok [byte])) ++ [.read (.error unexpectedEof)]

/-- What a console over memory observes: writes succeed, and there is no reconnect. -/
def memoryWorld (now : ℕ → Time) : World := ⟨now, fun _ => false, fun _ => .ok ()⟩

/-- The bytes that the transport has still to give. -/
def bytesLeft (c : Console) : ℕ :=
  (c.rsock.filter fun poll => poll ≠ .read (.error unexpectedEof)).length

/-- The loop of `decode_control`, at most `fuel` reads. -/
def decodeLoop (w : World) : ℕ → Console → Control → Option (Except ControlError Control)
  | 0, _, _ => none
  | fuel + 1, c, control =>
    match outcome (Console.readTimeout w (seconds 30)) c with
    | (.ok response, c') =>
      match control.add response with
      | .ok control => decodeLoop w fuel c' control
      | .error e => some (.error (.console e))
    | (.error e, c') =>
      if e = .io unexpectedEof then
        if bytesLeft c' = bytesLeft c then some (.ok control) else some (.error .truncated)
      else some (.error (.console e))

/-- The bytes a console sent in a capture. -/
def incomingBytes (events : List Redact.Event) : List UInt8 :=
  (events.filter fun event => event.1 = "N<").flatMap Prod.snd

/-- `decode_control`; every read but the last takes a byte. -/
def decodeControl (now : ℕ → Time) (events : List Redact.Event) :
    Option (Except ControlError Control) :=
  decodeLoop (memoryWorld now) ((incomingBytes events).length + 1)
    (Console.new (now 0) (memoryTransport (incomingBytes events))) .default

end Compare

end LibWing
