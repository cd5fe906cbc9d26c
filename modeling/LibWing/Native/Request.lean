import LibWing.Native.Value
import LibWing.Native.Opcode
import LibWing.Meter.Basic

/-!
# The request decoder

`NativeRequestDecoder` is the server side's incremental, bounded decoder for client-to-console
requests.  Bytes of the Audio Engine channel (1) are collected in `audio` until they form a token,
bytes of the meter channel (3) in `meter` until they form a command; selecting a channel resolves a
pending meter renewal.

* `audioStep`, `parseAudio` : one token of the audio buffer, and `parse_audio` as the loop over it;
* `parseMeter`, `flushMeterRenewal`, `decodeMeterEntries` : the meter commands;
* `pushEvent`, `pushLoop`, `push` : the loop of `push_events`, and `push`, which resets the decoder
  on an error.

The parsing functions are methods of the decoder that use everything but its framing state: here
they are functions of `RequestParser`, the decoder without that state.  They return the parser only
when they succeed: on an error `push` replaces the decoder by a new one, whatever the failing
function left behind.
-/

namespace LibWing

/-- Resource ceilings applied before a request is returned to a server. -/
structure NativeLimits where
  /-- Of both buffers together. -/
  maxBufferedBytes : ℕ
  /-- Of a string. -/
  maxStringBytes : ℕ
  /-- How long a path may be. -/
  maxPathElements : ℕ
  /-- Of the names of a path together. -/
  maxPathBytes : ℕ
  /-- Of a definition. -/
  maxDefinitionBytes : ℕ
  /-- How many requests one push may return. -/
  maxBatchRequests : ℕ
  /-- How many meters a request may ask for. -/
  maxMeterEntries : ℕ
  deriving DecidableEq, Repr

/-- `NativeLimits::default`. -/
def NativeLimits.default : NativeLimits where
  maxBufferedBytes := 64 * 1024
  maxStringBytes := 256
  maxPathElements := 256
  maxPathBytes := 4096
  maxDefinitionBytes := 1024 * 1024
  maxBatchRequests := 4096
  maxMeterEntries := 512

/-- One navigation component of a subtree request. -/
inductive PathElement where
  | name (value : String)
  | index (value : UInt32)
  deriving DecidableEq, Repr

/-- A decoded client-to-console operation. -/
inductive NativeRequest where
  | keepAlive (channel : UInt8)
  | get (id : Int32)
  | definition (id : Int32)
  | set (id : Int32) (value : NativeValue)
  | toggle (id : Int32)
  | step (id : Int32) (amount : Int8)
  | bulkData (path : List PathElement)
  | bulkDefinition (path : List PathElement)
  | meterPort (port : UInt16)
  | meterSubscribe (port : UInt16) (reportId : UInt32) (meters : List Meter)
  | meterRenew (reportId : UInt32)
  | unknown (channel opcode : UInt8)
  deriving DecidableEq, Repr

/-- The incremental decoder without its framing state, which the parsing functions neither read nor
change. -/
structure RequestParser where
  /-- What it accepts. -/
  limits : NativeLimits
  /-- The beginning of a token. -/
  audio : List UInt8
  /-- The beginning of a meter command. -/
  meter : List UInt8
  /-- The node that was navigated to by its id. -/
  selectedId : Option Int32
  /-- The names and indices that were navigated down. -/
  path : List PathElement
  /-- The bytes of the names in it. -/
  pathBytes : ℕ
  /-- The port that meters are to be sent to. -/
  meterPort : Option UInt16
  deriving DecidableEq, Repr

/-- The incremental decoder. -/
structure NativeRequestDecoder extends RequestParser where
  /-- The framing of the channels. -/
  channels : ChannelDecoder
  deriving DecidableEq, Repr

/-- The loop of `decode_meter_entries`: `family` is the last opcode seen, `meters` the entries
collected so far. -/
def decodeMeterLoop (limit : ℕ) (family : Option UInt8) (meters : List Meter) :
    List UInt8 → Result (List Meter)
  | [] => .ok meters
  | byte :: rest =>
    if 0xa0 ≤ byte ∧ byte ≤ 0xaf then
      -- Monitor and Rta take no index byte: the opcode is the whole entry.
      let meters := match (Meter.fromWire byte 0).filter (fun m => m.wire.2.2 = 0) with
        | some meter => meters ++ [meter]
        | none => meters
      if meters.length > limit then .error .invalidData
      else decodeMeterLoop limit (some byte) meters rest
    else if byte ≤ 0x7f then
      match family with
      | none => .error .invalidData
      | some family =>
        match Meter.fromWire family (byte + 1) with
        | none => .error .invalidData
        | some meter =>
          if (meters ++ [meter]).length > limit then .error .invalidData
          else decodeMeterLoop limit (some family) (meters ++ [meter]) rest
    else .error .invalidData

/-- `decode_meter_entries`. -/
def decodeMeterEntries (raw : List UInt8) (limit : ℕ) : Result (List Meter) :=
  decodeMeterLoop limit none [] raw

namespace RequestParser

/-- `check_buffer_limit`. -/
def checkBufferLimit (p : RequestParser) : Result Unit :=
  if p.audio.length + p.meter.length > p.limits.maxBufferedBytes then .error .invalidData
  else .ok ()

/-- `check_path_room`. -/
def checkPathRoom (p : RequestParser) (nameBytes : ℕ) : Result Unit :=
  if p.path.length < p.limits.maxPathElements ∧ p.pathBytes + nameBytes ≤ p.limits.maxPathBytes
  then .ok () else .error .invalidData

/-- `push_path_index`. -/
def pushPathIndex (p : RequestParser) (index : UInt32) : Result RequestParser := do
  p.checkPathRoom 0
  return { p with path := p.path ++ [.index index] }

/-- `audio.drain(..used)`. -/
def drainAudio (p : RequestParser) (used : ℕ) : RequestParser :=
  { p with audio := p.audio.drop used }

/-- What one pass of `parse_audio` does. -/
inductive AudioStep where
  /-- The token is incomplete (`Ok(None)`). -/
  | more
  /-- A navigation token was consumed (`return self.parse_audio()`). -/
  | again (p : RequestParser)
  /-- A request was completed. -/
  | request (r : NativeRequest) (p : RequestParser)

/-- `set_value`: a request for the selected id, using up `used` bytes. -/
def setValue (p : RequestParser) (used : ℕ) (value : NativeValue) : Result AudioStep :=
  match p.selectedId with
  | none => .error .invalidData
  | some id => .ok (.request (.set id value) (p.drainAudio used))

/-- `parse_string_token`. -/
def parseStringToken (p : RequestParser) (len header : ℕ) : Result AudioStep :=
  if len > p.limits.maxStringBytes then .error .invalidData
  else match fromUtf8 ((p.audio.drop header).take len) with
    | none => .error .invalidData
    | some value => p.setValue (header + len) (.string value)

/-- One pass of `parse_audio` over a buffer that starts with `opcode`, followed by `rest`. -/
def audioToken (p : RequestParser) (opcode : UInt8) (rest : List UInt8) : Result AudioStep :=
  match Opcode.ofByte opcode with
  | .nodeId =>
    match rest with
    | a :: b :: c :: d :: _ =>
      .ok (.again ({ p with selectedId := some (i32OfBytes a b c d) }.drainAudio 5))
    | _ => .ok .more
  | .smallInt => p.setValue 1 (.integer opcode.toUInt32.toInt32)
  | .index => do
    let p ← p.pushPathIndex (opcode - 0x3f).toUInt32
    return .again (p.drainAudio 1)
  | .shortString =>
    let len := (opcode - 0x7f).toNat
    if p.audio.length < len + 1 then .ok .more else p.parseStringToken len 1
  | .name =>
    let len := (opcode - 0xbf).toNat
    if p.audio.length < len + 1 then .ok .more
    else do
      p.checkPathRoom len
      match fromUtf8 ((p.audio.drop 1).take len) with
      | none => .error .invalidData
      | some value =>
        return .again ({ p with
          pathBytes := p.pathBytes + len
          path := p.path ++ [PathElement.name value] }.drainAudio (len + 1))
  | .emptyString => p.setValue 1 (.string "")
  | .longString =>
    match rest with
    | [] => .ok .more
    | encodedLen :: _ =>
      let len := encodedLen.toNat + 1
      if p.audio.length < len + 2 then .ok .more else p.parseStringToken len 2
  | .index16 =>
    match rest with
    | a :: b :: _ => do
      let p ← p.pushPathIndex ((BigEndian.fromBe16 a b).toUInt32 + 1)
      return .again (p.drainAudio 3)
    | _ => .ok .more
  | .int16 =>
    match rest with
    | a :: b :: _ => p.setValue 3 (.integer (i16OfBytes a b))
    | _ => .ok .more
  | .int32 =>
    match rest with
    | a :: b :: c :: d :: _ => p.setValue 5 (.integer (i32OfBytes a b c d))
    | _ => .ok .more
  | .float =>
    match rest with
    | a :: b :: c :: d :: _ => p.setValue 5 (.float (f32OfBytes a b c d))
    | _ => .ok .more
  | .rawFloat =>
    match rest with
    | a :: b :: c :: d :: _ => p.setValue 5 (.rawFloat (f32OfBytes a b c d))
    | _ => .ok .more
  | .click =>
    match p.selectedId with
    | none => .error .invalidData
    | some id => .ok (.request (.toggle id) (p.drainAudio 1))
  | .step =>
    match rest with
    | [] => .ok .more
    | amount :: _ =>
      match p.selectedId with
      | none => .error .invalidData
      | some id => .ok (.request (.step id amount.toInt8) (p.drainAudio 2))
  | .root => .ok (.again ({ p with selectedId := none, path := [], pathBytes := 0 }.drainAudio 1))
  | .up =>
    let pathBytes := match p.path.getLast? with
      | some (PathElement.name name) => p.pathBytes - (utf8 name).length
      | _ => p.pathBytes
    .ok (.again ({ p with
      selectedId := none
      path := p.path.dropLast
      pathBytes := pathBytes }.drainAudio 1))
  | .data =>
    match p.selectedId with
    | some id => .ok (.request (.get id) (p.drainAudio 1))
    | none => .ok (.request (.bulkData p.path) (p.drainAudio 1))
  | .definition =>
    match p.selectedId with
    | some id => .ok (.request (.definition id) (p.drainAudio 1))
    | none => .ok (.request (.bulkDefinition p.path) (p.drainAudio 1))
  | .requestEnd | .nodeDef | .unknown =>
    .ok (.request (.unknown 1 opcode) (p.drainAudio 1))

/-- One pass of `parse_audio`. -/
def audioStep (p : RequestParser) : Result AudioStep :=
  match p.audio with
  | [] => .ok .more
  | opcode :: rest => p.audioToken opcode rest

/-- `parse_audio` with at most `fuel` passes. -/
def parseAudioFuel : ℕ → RequestParser →
    Result (Option NativeRequest × RequestParser)
  | 0, p => .ok (none, p)
  | fuel + 1, p => do
    match ← p.audioStep with
    | .more => return (none, p)
    | .again p' => parseAudioFuel fuel p'
    | .request r p' => return (some r, p')

/-- `parse_audio`.  Every pass but the last consumes a byte, so the fuel is not used up. -/
def parseAudio (p : RequestParser) : Result (Option NativeRequest × RequestParser) :=
  parseAudioFuel (p.audio.length + 1) p

/-- `parse_meter`. -/
def parseMeter (p : RequestParser) : Result (Option NativeRequest × RequestParser) :=
  match p.meter with
  | [] => .ok (none, p)
  | opcode :: rest =>
    if opcode = 0xd3 then
      match rest with
      | a :: b :: _ =>
        let port := BigEndian.fromBe16 a b
        .ok (some (.meterPort port), { p with meterPort := some port, meter := p.meter.drop 3 })
      | _ => .ok (none, p)
    else if opcode = 0xd4 then
      match rest with
      | a :: b :: c :: e :: next :: _ =>
        let reportId := BigEndian.fromBe32 a b c e
        if next ≠ 0xdc then
          .ok (some (.meterRenew reportId), { p with meter := p.meter.drop 5 })
        else
          -- Only the newest byte can close the collection.
          let last := p.meter.length - 1
          if last < 6 ∨ p.meter.getLast? ≠ some 0xde then .ok (none, p)
          else do
            let meters ← decodeMeterEntries ((p.meter.take last).drop 6) p.limits.maxMeterEntries
            match p.meterPort with
            | none => .error .invalidData
            | some port =>
              return (some (.meterSubscribe port reportId meters),
                { p with meter := p.meter.drop (last + 1) })
      | _ => .ok (none, p)
    else .ok (some (.unknown 3 opcode), { p with meter := p.meter.drop 1 })

/-- `flush_meter_renewal`. -/
def flushMeterRenewal (p : RequestParser) :
    Result (List NativeRequest × RequestParser) :=
  match p.meter with
  | [] => .ok ([], p)
  | [op, a, b, c, e] =>
    if op = 0xd4 then .ok ([.meterRenew (BigEndian.fromBe32 a b c e)], { p with meter := [] })
    else .error .invalidData
  | _ => .error .invalidData

/-- `while let Some(request) = parse()? { requests.push(request) }`, at most `fuel` times. -/
def drainWith (parse : RequestParser → Result (Option NativeRequest × RequestParser)) :
    ℕ → RequestParser → Result (List NativeRequest × RequestParser)
  | 0, p => .ok ([], p)
  | fuel + 1, p => do
    match ← parse p with
    | (none, p') => return ([], p')
    | (some r, p') =>
      let (rs, p'') ← drainWith parse fuel p'
      return (r :: rs, p'')

/-- One event of the loop in `push_events`: the requests it adds.  Each request parsed takes a byte
off its buffer, so the fuel of the two inner loops is not used up. -/
def pushEvent (p : RequestParser) : ChannelEvent →
    Result (List NativeRequest × RequestParser)
  | .selected channel => do
    let (rs, p') ← p.flushMeterRenewal
    return (rs ++ [.keepAlive channel], p')
  | .data channel byte =>
    if channel = 1 then do
      let p := { p with audio := p.audio ++ [byte] }
      p.checkBufferLimit
      drainWith parseAudio (p.audio.length + 1) p
    else if channel = 3 then do
      let p := { p with meter := p.meter ++ [byte] }
      p.checkBufferLimit
      drainWith parseMeter (p.meter.length + 1) p
    else return ([.unknown channel byte], p)

/-- The loop of `push_events`, with the requests collected so far. -/
def pushLoop (p : RequestParser) (requests : List NativeRequest) :
    List ChannelEvent → Result (List NativeRequest × RequestParser)
  | [] => .ok (requests, p)
  | event :: events => do
    let (rs, p') ← p.pushEvent event
    if (requests ++ rs).length > p.limits.maxBatchRequests then throw .invalidData
    p'.pushLoop (requests ++ rs) events

end RequestParser

namespace NativeRequestDecoder

/-- `NativeRequestDecoder::new`. -/
def new (limits : NativeLimits) : NativeRequestDecoder where
  channels := .default
  limits := limits
  audio := []
  meter := []
  selectedId := none
  path := []
  pathBytes := 0
  meterPort := none

/-- `NativeRequestDecoder::reset`. -/
def reset (d : NativeRequestDecoder) : NativeRequestDecoder := new d.limits

/-- `push_events`. -/
def pushEvents (d : NativeRequestDecoder) (input : List UInt8) :
    Result (List NativeRequest × NativeRequestDecoder) :=
  match d.channels.push input with
  | (.error e, _) => .error e
  | (.ok events, channels) => do
    let (requests, parser) ← d.toRequestParser.pushLoop [] events
    return (requests, { toRequestParser := parser, channels := channels })

/-- Decode a fragment.  Any error resets the decoder. -/
def push (d : NativeRequestDecoder) (input : List UInt8) :
    Result (List NativeRequest) × NativeRequestDecoder :=
  match d.pushEvents input with
  | .error e => (.error e, d.reset)
  | .ok (requests, d') => (.ok requests, d')

/-- `NativeRequestDecoder::finish`. -/
def finish (d : NativeRequestDecoder) : Result Unit := do
  d.channels.finish
  if d.audio = [] ∧ d.meter = [] then return () else throw .invalidData

end NativeRequestDecoder

end LibWing
