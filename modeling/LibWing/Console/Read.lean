import LibWing.Console.Main
import LibWing.Lib.Stateful

/-!
# Reading responses

`read_inner` parses one response from the logical bytes `decode_next` yields; `read_locked` puts the
bytes of a response that timed out back for the next read.

* `Source` : where the bytes come from.  `read_inner` uses nothing of the console but the next
  byte and the current node id, so it is written once for every source of these;
* `Source.readToken`, `Source.readInner` : one token, and `read_inner` as the loop over tokens;
* `Console.readLocked`, `read`, `readTimeout` : the calls, under the read gate.
-/

namespace LibWing

open Stateful

/-- `MAX_NODE_DEF_BYTES`. -/
def maxNodeDefBytes : ℕ := 1024 * 1024

/-- What `read_inner` reads from. -/
structure Source (σ : Type) where
  /-- The next byte of the audio channel. -/
  decodeNext : EStateM Error σ Decoded
  /-- The node that a value belongs to. -/
  currentNodeId : EStateM Error σ Int32
  /-- Go to another node. -/
  setCurrentNodeId : Int32 → EStateM Error σ Unit

namespace Source

variable {σ : Type} (src : Source σ)

/-- `read_u8`. -/
def readU8 : EStateM Error σ UInt8 := do
  let a ← src.decodeNext
  return a.2

/-- `read_u16`. -/
def readU16 : EStateM Error σ UInt16 := do
  let a ← src.decodeNext
  let b ← src.decodeNext
  return BigEndian.fromBe16 a.2 b.2

/-- `read_u32`. -/
def readU32 : EStateM Error σ UInt32 := do
  let a ← src.decodeNext
  let b ← src.decodeNext
  let c ← src.decodeNext
  let d ← src.decodeNext
  return BigEndian.fromBe32 a.2 b.2 c.2 d.2

/-- `len` bytes, as the loops over `decode_next` collect them. -/
def readBytes : ℕ → EStateM Error σ (List UInt8)
  | 0 => return []
  | len + 1 => do
    let a ← src.decodeNext
    let rest ← readBytes len
    return a.2 :: rest

/-- `read_string`. -/
def readString (len : ℕ) : EStateM Error σ String := do
  let buf ← src.readBytes len
  ofExcept ((fromUtf8 buf).elim (.error .invalidData) .ok)

/-- A value for the current node. -/
def nodeData (data : WingNodeData) : EStateM Error σ (Option WingResponse) := do
  return some (.nodeData (← src.currentNodeId) data)

/-- The length of a definition; zero means that the length follows in thirty-two bits. -/
def readDefLength : EStateM Error σ UInt32 := do
  let len ← src.readU16
  if len = 0 then src.readU32 else return len.toUInt32

/-- A definition: its length and its body. -/
def readNodeDef : EStateM Error σ (Option WingResponse) := do
  let len ← src.readDefLength
  if len.toNat > maxNodeDefBytes then throw .invalidData
  else do
    let raw ← src.readBytes len.toNat
    let d ← ofExcept (WingNodeDef.fromBytes raw)
    return some (.nodeDef d)

/-- The token that begins with `cmd`; `none` when it is not a response by itself. -/
def token (cmd : UInt8) : EStateM Error σ (Option WingResponse) :=
  match Opcode.ofByte cmd with
  | .smallInt => src.nodeData (.withI32 cmd.toUInt32.toInt32)
  | .index => return none
  | .shortString => do
    let v ← src.readString (cmd - 0x7f).toNat
    src.nodeData (.withString v)
  | .name => do
    -- A name selects a node; its bytes are consumed to stay framed.
    let _ ← src.readBytes (cmd - 0xbf).toNat
    return none
  | .emptyString => src.nodeData (.withString "")
  | .longString => do
    let len ← src.readU8
    let v ← src.readString (len.toNat + 1)
    src.nodeData (.withString v)
  | .index16 => do
    let _ ← src.readU16
    return none
  | .int16 => do
    let v ← src.readU16
    src.nodeData (.withI16 v.toInt16.toInt32)
  | .int32 => do
    let v ← src.readU32
    src.nodeData (.withI32 v.toInt32)
  | .float | .rawFloat => do
    let v ← src.readU32
    src.nodeData (.withFloat ⟨v⟩)
  | .nodeId => do
    let id ← src.readU32
    src.setCurrentNodeId id.toInt32
    return none
  | .step => do
    let _ ← src.readU8
    return none
  | .click | .root | .up | .data | .definition => return none
  | .requestEnd => return some .requestEnd
  | .nodeDef => src.readNodeDef
  | .unknown => throw .invalidData

/-- One token of `read_inner`. -/
def readToken : EStateM Error σ (Option WingResponse) := do
  let (_, cmd) ← src.decodeNext
  src.token cmd

/-- `read_inner`, at most `fuel` tokens. -/
def readInner : ℕ → EStateM Error σ WingResponse
  | 0 => throw .invalidData
  | fuel + 1 => do
    match ← src.readToken with
    | some response => return response
    | none => readInner fuel

end Source

namespace Console

variable (w : World)

/-- The console as a source of bytes. -/
def source : Source Console where
  decodeNext := decodeNext w
  currentNodeId := do return (← get).main.currentNodeId
  setCurrentNodeId id := modifyMain fun r => { r with currentNodeId := id }

/-- `read_inner`.  Every token takes a byte and a response has at most `MAX_NATIVE_RESPONSE_BYTES`
of them, so the fuel is not used up. -/
def readInner : ConsoleM WingResponse := (source w).readInner (maxNativeResponseBytes + 1)

/-- Put the bytes of a response that timed out back in front of the replay queue, and the node id
with them. -/
def rollback (previousNodeId : Int32) : ConsoleM Unit := modifyMain fun r =>
  { r with
    replay := r.readCapture ++ r.replay
    readCapture := []
    currentNodeId := previousNodeId }

/-- The outcome of a read: a failure of the transport while a reconnect is in progress is that
reconnect, which shuts the transport down to wake the reader. -/
def finishRead : Except Error WingResponse → ConsoleM WingResponse
  | .ok response => return response
  | .error .connectionError => do
    if ← loadReconnecting w then throw .reconnecting else throw .connectionError
  | .error (.io kind) => do
    if ← loadReconnecting w then throw .reconnecting else throw (.io kind)
  | .error e => throw e

/-- The end of a read that began with node id `previousNodeId`. -/
def settle (previousNodeId : Int32) (result : Except Error WingResponse) :
    ConsoleM WingResponse := do
  if result = .error .timeout then rollback previousNodeId
  else modifyMain fun r => { r with readCapture := [] }
  finishRead w result

/-- The part of `read_locked` that parses a new response. -/
def readNew : ConsoleM WingResponse := do
  modifyMain fun r => { r with readCapture := [] }
  let previousNodeId := (← get).main.currentNodeId
  let result ← attempt (readInner w)
  settle w previousNodeId result

/-- `read_locked`. -/
def readLocked : ConsoleM WingResponse := do
  if (← get).streamTainted then throw .connectionError
  else if ← loadReconnecting w then throw .reconnecting
  else match (← get).main.pending with
    | response :: rest =>
      modifyMain fun r => { r with pending := rest }
      return response
    | [] => readNew w

/-- `read`. -/
def read : ConsoleM WingResponse := readLocked w

/-- `set_op_deadline`. -/
def setOpDeadline (deadline : Option Time) : ConsoleM Unit :=
  modifyMain fun r => { r with opDeadline := deadline }

/-- `read_timeout`. -/
def readTimeout (timeout : Time) : ConsoleM WingResponse := do
  let now ← instantNow w
  setOpDeadline (some (now + timeout))
  let result ← attempt (readLocked w)
  setOpDeadline none
  ofExcept result

end Console

end LibWing
