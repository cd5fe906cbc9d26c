import LibWing.Client.Messages
import LibWing.Console.Read

/-!
# Attended operations

A get writes a request and reads until its answer arrives, keeping what it reads on the way.

* `attendedReadUntil`, `requeue` : the reading loop of a get, and what it hands back when it runs
  out of time;
* `getNodeData`, `getNodeDefinition` : one value, one definition;
* `getNodeDefinitions`, `getBinaryNode` : a batch of definitions, and the raw bytes of a reply.
  Both set the responses that were queued before the request aside.
-/

namespace LibWing

open Stateful

/-- `MAX_ATTENDED_BUFFERED`. -/
def maxAttendedBuffered : ℕ := 64 * 1024

namespace Console

variable (w : World)

/-- `ensure_stream_usable`. -/
def ensureStreamUsable : ConsoleM Unit := do
  if (← get).streamTainted then throw .connectionError

section Requests

variable {w} {c : Console}

/-- On a tainted stream nothing is requested. -/
theorem request_tainted (ht : c.streamTainted = true) (message : List UInt8) :
    (do ensureStreamUsable; writeAll w message : ConsoleM Unit) c = .error .connectionError c := by
  simp only [ensureStreamUsable, bind, EStateM.bind, run_get, ht, ↓reduceIte]
  rfl

/-- On any other stream a request is written. -/
theorem request_usable (ht : c.streamTainted = false) (message : List UInt8) :
    (do ensureStreamUsable; writeAll w message : ConsoleM Unit) c = writeAll w message c := by
  simp only [ensureStreamUsable, bind, EStateM.bind, run_get, ht, Bool.false_eq_true, ↓reduceIte]
  rfl

end Requests

/-- `request_node_data`. -/
def requestNodeData (id : Int32) : ConsoleM Unit := do
  ensureStreamUsable
  writeAll w (requestNodeDataMessage id)

/-- `request_node_definition`. -/
def requestNodeDefinition (id : Int32) : ConsoleM Unit := do
  ensureStreamUsable
  writeAll w (requestNodeDefinitionMessage id)

/-- `requeue`: responses go back in front of the pending queue, in order. -/
def requeue (responses : List WingResponse) : ConsoleM Unit :=
  modifyMain fun r => { r with pending := responses ++ r.pending }

section AttendedRead

variable {T : Type}

/-- The loop of `attended_read_until`, with what it has buffered so far: its result and what is
buffered when it ends.  A response is buffered in each pass but the last, so the limit on them is a
limit on the passes. -/
def attendedLoop (deadline : Time) (matcher : WingResponse → Except WingResponse T) :
    ℕ → List WingResponse → ConsoleM (Except Error T × List WingResponse)
  | 0, buffered => return (.error .invalidData, buffered)
  | fuel + 1, buffered => do
    match ← attempt (readLocked w) with
    | .error err => return (.error err, buffered)
    | .ok resp =>
      match matcher resp with
      | .ok matched => return (.ok matched, buffered)
      | .error unrelated =>
        if buffered.length ≥ maxAttendedBuffered then return (.error .invalidData, buffered)
        else if (← instantNow w) ≥ deadline then
          return (.error .timeout, buffered ++ [unrelated])
        else attendedLoop deadline matcher fuel (buffered ++ [unrelated])

/-- The end of `attended_read_until`: a timeout hands the buffered responses back. -/
def attendedFinish : Except Error T × List WingResponse → ConsoleM (T × List WingResponse)
  | (.ok matched, buffered) => return (matched, buffered)
  | (.error .timeout, buffered) => do
    requeue buffered
    throw .timeout
  | (.error e, _) => throw e

/-- `attended_read_until`. -/
def attendedReadUntil (deadline : Time) (matcher : WingResponse → Except WingResponse T) :
    ConsoleM (T × List WingResponse) := do
  let result ← attendedLoop w deadline matcher (maxAttendedBuffered + 1) []
  attendedFinish result

/-- What the gets share: request, read until the answer, take the deadline back. -/
def attendedGet (request : ConsoleM Unit) (matcher : WingResponse → Except WingResponse T)
    (timeout : Time) : ConsoleM (T × List WingResponse) := do
  request
  let now ← instantNow w
  setOpDeadline (some (now + timeout))
  let result ← attempt (attendedReadUntil w (now + timeout) matcher)
  setOpDeadline none
  ofExcept result

end AttendedRead

/-- The answer to `get_node_data`. -/
def dataMatcher (id : Int32) : WingResponse → Except WingResponse WingNodeData
  | .nodeData rid data => if rid = id then .ok data else .error (.nodeData rid data)
  | other => .error other

/-- The answer to `get_node_definition`. -/
def definitionMatcher (id : Int32) : WingResponse → Except WingResponse WingNodeDef
  | .nodeDef d => if d.id = id then .ok d else .error (.nodeDef d)
  | other => .error other

/-- `get_node_data`. -/
def getNodeData (id : Int32) (timeout : Time) : ConsoleM (WingNodeData × List WingResponse) :=
  attendedGet w (requestNodeData w id) (dataMatcher id) timeout

/-- `get_node_definition`. -/
def getNodeDefinition (id : Int32) (timeout : Time) :
    ConsoleM (WingNodeDef × List WingResponse) :=
  attendedGet w (requestNodeDefinition w id) (definitionMatcher id) timeout

/-- A bound on the responses the console can still read without new ones being queued. -/
def budget (c : Console) : ℕ :=
  c.main.replay.length + c.main.rxEvents.length + 2 * c.weight + 1

/-- The definitions of `get_node_definitions` and what it buffers. -/
structure Batch where
  /-- The definitions that were accepted. -/
  definitions : List WingNodeDef
  /-- The nodes of the subtree so far. -/
  ids : List Int32
  /-- The responses that were set aside. -/
  buffered : List WingResponse

/-- The loop of `get_node_definitions`. -/
def definitionsLoop (deadline : Time) : ℕ → Batch →
    ConsoleM (Except Error (List WingNodeDef) × List WingResponse)
  | 0, b => return (.error .connectionError, b.buffered)
  | fuel + 1, b => do
    let next (b : Batch) : ConsoleM (Except Error (List WingNodeDef) × List WingResponse) := do
      if (← instantNow w) ≥ deadline then return (.error .timeout, b.buffered)
      else definitionsLoop deadline fuel b
    match ← attempt (readLocked w) with
    | .error err => return (.error err, b.buffered)
    | .ok (.nodeDef d) =>
      if d.id ∈ b.ids ∨ d.parentId ∈ b.ids then
        next { b with ids := d.id :: b.ids, definitions := b.definitions ++ [d] }
      else if b.buffered.length < maxAttendedBuffered then
        next { b with buffered := b.buffered ++ [.nodeDef d] }
      else return (.error .invalidData, b.buffered)
    | .ok .requestEnd =>
      if b.definitions ≠ [] then return (.ok b.definitions, b.buffered)
      else if b.buffered.length < maxAttendedBuffered then
        next { b with buffered := b.buffered ++ [.requestEnd] }
      else return (.error .invalidData, b.buffered)
    | .ok (.nodeData rid data) =>
      if b.buffered.length < maxAttendedBuffered then
        next { b with buffered := b.buffered ++ [.nodeData rid data] }
      else return (.error .invalidData, b.buffered)

/-- `get_node_definitions`. -/
def getNodeDefinitions (rootId : Int32) (timeout : Time) : ConsoleM (List WingNodeDef) := do
  let earlier := (← get).main.pending
  modifyMain fun r => { r with pending := [] }
  match ← attempt (requestNodeDefinition w rootId) with
  | .error e =>
    requeue earlier
    throw e
  | .ok () =>
    let now ← instantNow w
    setOpDeadline (some (now + timeout))
    let (result, buffered) ← definitionsLoop w (now + timeout) ((← get).budget + 1)
      ⟨[], [rootId], []⟩
    setOpDeadline none
    requeue (earlier ++ buffered)
    ofExcept result

/-- The loop of `get_binary_node`: responses are discarded up to the end of the reply. -/
def drainLoop (deadline : Time) : ℕ → ConsoleM (Except Error Unit)
  | 0 => return .error .connectionError
  | fuel + 1 => do
    match ← attempt (readLocked w) with
    | .ok .requestEnd => return .ok ()
    | .error e => return .error e
    | .ok _ =>
      if (← instantNow w) ≥ deadline then return .error .timeout
      else drainLoop deadline fuel

/-- The end of `get_binary_node`: take the capture and, after a timeout, fence the stream. -/
def takeCapture (result : Except Error Unit) : ConsoleM (List UInt8) := do
  let captured := (← get).main.capture.getD []
  modifyMain fun r => { r with opDeadline := none, capture := none }
  if result = .error .timeout then modify fun c => { c with streamTainted := true }
  ofExcept (result.map fun _ => captured)

/-- `get_binary_node`. -/
def getBinaryNode (id : Int32) (timeout : Time) : ConsoleM (List UInt8) := do
  requestNodeData w id
  let now ← instantNow w
  let earlier := (← get).main.pending
  modifyMain fun r =>
    { r with capture := some [], opDeadline := some (now + timeout), pending := [] }
  let result ← drainLoop w (now + timeout) ((← get).budget + 1)
  requeue earlier
  takeCapture result

end Console

end LibWing
