import LibWing.Native.Request

/-!
# Messages of the client

What the operations of `WingConsole` write: each operation builds one buffer and hands it to the
transport in one `write_all`, so the stream a server receives is the concatenation of the messages
in the order the writer lock was taken.

* `formatId`, `setValueMessage`, `requestNodeDataMessage`, … : the buffers;
* `ClientOp` : the operations, with their message and, for the server's side, the requests they
  stand for;
* `clientBytes` : the bytes of a sequence of operations.
-/

namespace LibWing

/-- The handshake, and the data keepalive: select channel 1. -/
def handshake : List UInt8 := [0xdf, 0xd1]

/-- `format_id`. -/
def formatId (id : Int32) (buf : List UInt8) (opcode : UInt8) (suffix : Option UInt8) :
    List UInt8 :=
  appendEscaped (buf ++ [opcode]) (i32Bytes id) ++ suffix.toList

/-- The buffer of `request_node_definition`. -/
def requestNodeDefinitionMessage (id : Int32) : List UInt8 :=
  if id = 0 then [0xda, 0xdd] else formatId id [] 0xd7 (some 0xdd)

/-- The buffer of `request_node_data`. -/
def requestNodeDataMessage (id : Int32) : List UInt8 :=
  if id = 0 then [0xda, 0xdc] else formatId id [] 0xd7 (some 0xdc)

/-- `append_value_message`: `buf` with the message of one value. -/
def appendValueMessage (buf : List UInt8) (id : Int32) (value : NativeValue) :
    Result (List UInt8) := do
  let token ← encodeValue value
  return appendEscaped (formatId id buf 0xd7 none) token

/-- `set_value_message`. -/
def setValueMessage (id : Int32) (value : NativeValue) : Result (List UInt8) :=
  appendValueMessage [] id value

/-- `set_string_message`. -/
def setStringMessage (id : Int32) (value : String) : Result (List UInt8) :=
  setValueMessage id (.string value)

/-- `set_float_message`. -/
def setFloatMessage (id : Int32) (value : F32) : Result (List UInt8) :=
  setValueMessage id (.float value)

/-- `set_int_message`. -/
def setIntMessage (id : Int32) (value : Int32) : Result (List UInt8) :=
  setValueMessage id (.integer value)

/-- The buffer of `toggle`. -/
def toggleMessage (id : Int32) : List UInt8 := formatId id [] 0xd7 (some 0xd8)

/-- The loop of `request_meter` that encodes the entries. -/
def encodeMeters (buf : List UInt8) : List Meter → Result (List UInt8)
  | [] => .ok buf
  | meter :: meters => do
    let buf ← encodeMeter buf meter
    encodeMeters buf meters

/-- The buffer of `request_meter` for report `id` and UDP port `port`. -/
def subscribeMessage (id port : UInt16) (meters : List Meter) : Result (List UInt8) := do
  let encodedMeters ← encodeMeters [] meters
  let buf := appendEscaped [0xdf, 0xd3, 0xd3] (BigEndian.toBe16 port) ++ [0xd4]
  let buf := appendEscaped buf (BigEndian.toBe16 id)
  let buf := appendEscaped buf (BigEndian.toBe16 port) ++ [0xdc]
  return buf ++ encodedMeters ++ [0xde] ++ [0xdf] ++ [0xd1]

/-- The buffer of `_keep_alive_meters`. -/
def renewMessage (id port : UInt16) : List UInt8 :=
  let keepalive := appendEscaped [0xdf, 0xd3, 0xd4] (BigEndian.toBe16 id)
  appendEscaped keepalive (BigEndian.toBe16 port) ++ [0xdf] ++ [0xd1]

/-- A client operation that writes to the session. -/
inductive ClientOp where
  | keepAlive
  | requestNodeData (id : Int32)
  | requestNodeDefinition (id : Int32)
  | setString (id : Int32) (value : String)
  | setFloat (id : Int32) (value : F32)
  | setInt (id : Int32) (value : Int32)
  | toggle (id : Int32)
  /-- `request_meter`, with the report id it spends and the port of the meter socket. -/
  | requestMeter (id port : UInt16) (meters : List Meter)
  /-- A meter keepalive that renews report `id`. -/
  | keepAliveMeters (id port : UInt16)
  deriving DecidableEq, Repr

namespace ClientOp

/-- The bytes an operation writes. -/
def message : ClientOp → Result (List UInt8)
  | keepAlive => .ok handshake
  | requestNodeData id => .ok (requestNodeDataMessage id)
  | requestNodeDefinition id => .ok (requestNodeDefinitionMessage id)
  | setString id value => setStringMessage id value
  | setFloat id value => setFloatMessage id value
  | setInt id value => setIntMessage id value
  | toggle id => .ok (toggleMessage id)
  | requestMeter id port meters => subscribeMessage id port meters
  | keepAliveMeters id port => .ok (renewMessage id port)

/-- The operations of the protocol: strings of at most 256 bytes, and at most 512 meters, each of
which `encode_meter` accepts. -/
def Admissible : ClientOp → Prop
  | setString _ value => (utf8 value).length ≤ 256
  | requestMeter _ _ meters =>
    meters.length ≤ 512 ∧ ∀ meter ∈ meters, ∃ bytes, encodeMeter [] meter = .ok bytes
  | _ => True

/-- The report id of a subscription: the client's id and its UDP port. -/
def reportId (id port : UInt16) : UInt32 := id.toUInt32 * 65536 + port.toUInt32

/-- The requests an operation stands for. -/
def requests : ClientOp → List NativeRequest
  | keepAlive => [.keepAlive 1]
  | requestNodeData id => if id = 0 then [.bulkData []] else [.get id]
  | requestNodeDefinition id => if id = 0 then [.bulkDefinition []] else [.definition id]
  | setString id value => [.set id (.string value)]
  | setFloat id value => [.set id (.float value)]
  | setInt id value => [.set id (.integer value)]
  | toggle id => [.toggle id]
  | requestMeter id port meters =>
    [.keepAlive 3, .meterPort port, .meterSubscribe port (reportId id port) meters, .keepAlive 1]
  | keepAliveMeters id port => [.keepAlive 3, .meterRenew (reportId id port), .keepAlive 1]

end ClientOp

/-- The bytes of a sequence of operations. -/
def clientBytes : List ClientOp → Result (List UInt8)
  | [] => .ok []
  | op :: ops => do
    let message ← op.message
    let rest ← clientBytes ops
    return message ++ rest

end LibWing
