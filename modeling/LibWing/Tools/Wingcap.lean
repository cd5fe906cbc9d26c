import LibWing.Tools.Hex
import LibWing.Tools.Matrix

/-!
# Captures

The text of a capture: lines of metadata, which start with `#`, and lines of events, which start
with `@` and hold an ordinal, an offset in microseconds, a channel and a payload in hex.

* `splitCaptureLine` : the parts of a line;
* `readLine`, `parseCaptureWithPolicy` : reading a capture, for its structure or for promotion;
* `contractEvents` : its events, as they are compared;
* `eventsToV2` : the text of events;
* `mergePartialEvents`, `buildMergedMatrix`, `mergeV2` : captures put together, each based behind
  the one before it.

A text is a list of characters.  The arguments of the command, the files and the quarantine are not
part of it.
-/

namespace LibWing

namespace Wingcapture

open Text Redact

/-! ### Failing -/

/-- Return an error. -/
def fail {α : Type} (message : String) : Except Failure α := .error (.error message)

/-- Return an error if a check fails. -/
def rejectIf (c : Prop) [Decidable c] (message : String) : Except Failure Unit :=
  if c then fail message else .ok ()

/-- `Option::ok_or_else`. -/
def okOr {α : Type} (x : Option α) (message : String) : Except Failure α :=
  x.elim (fail message) .ok

/-- `Debug` of text. -/
def debug (t : Texts) (s : List Char) : String := t.stringDebug (String.ofList s)

/-- The failure of a line. -/
def Failure.inLine (t : Texts) (line : List Char) : Failure → Failure
  | .error message => .error (debug t line ++ ": " ++ message)
  | .panic => .panic

/-! ### Lines -/

/-- `split_prefix`. -/
def splitPrefix (line : List Char) : Option (List Char × List Char) :=
  ["N>", "N<", "M<", "O<", "O>", "D<"].findSome? fun channel =>
    (stripPrefix channel.toList line).map fun rest => (channel.toList, rest)

/-- `split_capture_line`. -/
def splitCaptureLine (line : List Char) : Option (List Char × List Char) :=
  if line.head? = some '@' then
    match splitn isWhitespace 4 line with
    | ordinal :: offset :: channel :: fields =>
      some (ordinal ++ ' ' :: (offset ++ ' ' :: channel), trim (fields.headD []))
    | _ => none
  else splitPrefix line

/-- The ordinal of an event. -/
def parseOrdinal (field : List Char) : Option ℕ :=
  (stripPrefix ['@'] field).bind (parseUInt (2 ^ 64))

/-- The offset of an event. -/
def parseOffset (field : List Char) : Option ℕ :=
  ((stripPrefix ['+'] field).bind (stripSuffix ['u', 's'])).bind (parseUInt (2 ^ 64))

/-- The channels of a capture. -/
def captureChannels : List String := ["D>", "D<", "N>", "N<", "M>", "M<", "O>", "O<"]

/-! ### Reading -/

/-- `CaptureSummary`. -/
structure CaptureSummary where
  /-- The version of the format. -/
  version : ℕ
  /-- How many events there are. -/
  eventCount : ℕ
  /-- The metadata. -/
  headers : Headers
  deriving DecidableEq

/-- What has been read. -/
structure Reading where
  /-- The metadata so far. -/
  headers : Headers
  /-- The channels of the events so far. -/
  channels : Finset String
  /-- The ordinal of the next event. -/
  expectedOrdinal : ℕ
  /-- The offset of the last one. -/
  previousOffset : ℕ
  /-- How many there have been. -/
  eventCount : ℕ
  /-- What they show. -/
  matrix : MatrixEvidence
  /-- Their payloads. -/
  redactionEvents : List Event
  /-- The version that the text declares. -/
  declaredVersion : Option (List Char)
  /-- An event has been read. -/
  sawData : Bool

/-- Before the first line. -/
def Reading.start : Reading where
  headers := []
  channels := ∅
  expectedOrdinal := 1
  previousOffset := 0
  eventCount := 0
  matrix := .default
  redactionEvents := []
  declaredVersion := none
  sawData := false

/-- Read a line of metadata, which goes on with `rest` behind its `#`. -/
def Reading.readMetadata (t : Texts) (promotion : Bool) (r : Reading) (line rest : List Char) :
    Except Failure Reading := do
  rejectIf (promotion ∧ scan (utf8 (String.ofList rest)) ≠ [])
    ("sensitive identifier in metadata: " ++ debug t line)
  match splitOnce ':' (trim rest) with
  | none => return r
  | some (key, value) =>
    let key := (trim key).map Char.toLower
    let value := trim value
    rejectIf (r.headers.lookup key).isSome
      ("duplicate capture metadata key: " ++ String.ofList key)
    if key = "wingcap_version".toList then
      rejectIf r.sawData "wingcap_version must precede data"
      rejectIf (value ≠ ['2']) "unsupported wingcap_version"
      return { r with declaredVersion := some value, headers := (key, value) :: r.headers }
    else return { r with headers := (key, value) :: r.headers }

/-- Read the line of an event. -/
def Reading.readEvent (t : Texts) (promotion : Bool) (r : Reading) (line : List Char) :
    Except Failure Reading := do
  let (head, hex) ← okOr (splitCaptureLine line) ("unrecognized capture line " ++ debug t line)
  rejectIf (head.head? ≠ some '@') ("V2 data lines must use timed @ events: " ++ debug t line)
  let fields := splitWhitespace head
  let ordinal ← okOr (fields[0]?.bind parseOrdinal) ("invalid event ordinal in " ++ debug t line)
  rejectIf (ordinal ≠ r.expectedOrdinal)
    ("event ordinal " ++ toString ordinal ++ " is not the expected " ++ toString r.expectedOrdinal)
  let offset ← okOr (fields[1]?.bind parseOffset) ("invalid event offset in " ++ debug t line)
  rejectIf (offset < r.previousOffset) ("event offsets are not monotonic in " ++ debug t line)
  let channel ← okOr (fields[2]?.map String.ofList) ("missing event channel in " ++ debug t line)
  rejectIf (channel ∉ captureChannels) ("unknown event channel " ++ t.stringDebug channel)
  let bytes ← (decodeHex hex).mapError (Failure.inLine t line)
  rejectIf (channel = "M<" ∧ bytes.length < 4)
    "V2 meter input omits the four-byte report token"
  return { r with
    sawData := true
    expectedOrdinal := r.expectedOrdinal + 1
    previousOffset := offset
    redactionEvents := if promotion then r.redactionEvents ++ [(channel, bytes)]
      else r.redactionEvents
    channels := insert channel r.channels
    matrix := r.matrix.record (channel, bytes)
    eventCount := r.eventCount + 1 }

/-- Read a line. -/
def readLine (t : Texts) (promotion : Bool) (r : Reading) (raw : List Char) :
    Except Failure Reading :=
  let line := trimEnd raw
  if line = [] then .ok r
  else if line.head? = some '#' then r.readMetadata t promotion line line.tail
  else r.readEvent t promotion line

/-- Read the lines. -/
def readLines (t : Texts) (promotion : Bool) : Reading → List (List Char) → Except Failure Reading
  | r, [] => .ok r
  | r, line :: lines => do
    let r ← readLine t promotion r line
    readLines t promotion r lines

/-- `REQUIRED_V2_HEADERS`. -/
def requiredV2Headers : List String :=
  ["scenario", "source", "console_model", "firmware", "capture_date", "sanitizer",
    "manual_redaction_attested", "expected_behavior"]

/-- A key that is required, and attested if the capture is promoted. -/
def requireHeader (promotion : Bool) (headers : Headers) (key : String) : Except Failure Unit := do
  let value ← okOr
    ((headers.get key).filter fun value =>
      !value.isEmpty && !decide ("FILL-ME-IN".toList <:+: value))
    ("missing required V2 metadata: " ++ key)
  rejectIf (promotion ∧ key = "manual_redaction_attested" ∧ value ≠ "true".toList)
    "manual free-text redaction attestation must be true"

/-- What only a capture that is promoted has to be. -/
def requirePromotable (t : Texts) (r : Reading) : Except Failure Unit := do
  ["D>", "D<", "N>", "N<", "M>", "M<"].forM fun channel =>
    rejectIf (channel ∉ r.channels) ("complete V2 capture is missing " ++ channel ++ " events")
  let source := r.headers.get "source"
  rejectIf (source ≠ some "synthetic".toList ∧ source ≠ some "hardware".toList)
    "capture source must be exactly synthetic or hardware"
  if source = some "hardware".toList then
    rejectIf ((r.headers.get "sanitizer").all fun value => value = "n/a".toList || value.isEmpty)
      "hardware capture is missing a sanitizer version"
    (validateHardwareMatrix t r.headers r.matrix).mapError Failure.error

/-- `parse_capture_with_policy`. -/
def parseCaptureWithPolicy (t : Texts) (text : List Char) (promotion : Bool) :
    Except Failure CaptureSummary := do
  let r ← readLines t promotion .start (lines text)
  rejectIf (promotion ∧ scanEvents r.redactionEvents ≠ [])
    "sensitive identifier in capture streams"
  let declared ← okOr r.declaredVersion "promotion requires wingcap_version: 2"
  let version ← okOr (parseUInt (2 ^ 8) declared)
    ("invalid wingcap_version: " ++ parseUIntError declared)
  rejectIf (version ≠ 2) "promotion requires wingcap_version: 2"
  requiredV2Headers.forM (requireHeader promotion r.headers)
  if promotion then requirePromotable t r
  return { version := version, eventCount := r.eventCount, headers := r.headers }

/-- `parse_capture_structure`. -/
def parseCaptureStructure (t : Texts) (text : List Char) : Except Failure CaptureSummary :=
  parseCaptureWithPolicy t text false

/-! ### Events -/

/-- The lines of events. -/
def eventLines (text : List Char) : List (List Char) :=
  (lines text).filter fun line => line.head? = some '@'

/-- The event of a line, as it is compared. -/
def contractEvent (t : Texts) (line : List Char) : Except Failure Event := do
  let (head, hex) ← okOr (splitCaptureLine line) ("unrecognized capture event: " ++ debug t line)
  let channel ← okOr (splitWhitespace head)[2]? ("missing channel in " ++ debug t line)
  let bytes ← decodeHex hex
  return (String.ofList channel, bytes)

/-- `contract_events`. -/
def contractEvents (t : Texts) (text : List Char) : Except Failure (List Event) := do
  let _ ← parseCaptureStructure t text
  (eventLines text).mapM (contractEvent t)

/-- `CapturedEvent`. -/
abbrev CapturedEvent := ℕ × String × List UInt8

/-- A line of metadata. -/
def metadataLine (key value : String) : List Char :=
  '#' :: ' ' :: (key.toList ++ ':' :: ' ' :: (value.toList ++ ['\n']))

/-- The line of an event. -/
def eventLine (ordinal : ℕ) (event : CapturedEvent) : List Char :=
  '@' :: (Nat.toDigits 10 ordinal ++ ' ' :: '+' :: (Nat.toDigits 10 event.1 ++ 'u' :: 's' :: ' ' ::
    (event.2.1.toList ++ ' ' :: (encodeHex event.2.2 ++ ['\n']))))

/-- The lines of events, the first of which has the ordinal. -/
def eventText : ℕ → List CapturedEvent → List Char
  | _, [] => []
  | ordinal, event :: events => eventLine ordinal event ++ eventText (ordinal + 1) events

/-- `events_to_v2`. -/
def eventsToV2 (scenario expectedBehavior : String) (events : List CapturedEvent) : List Char :=
  (metadataLine "wingcap_version" "2" ++ metadataLine "scenario" scenario ++
    metadataLine "source" "hardware" ++ metadataLine "console_model" "pending-manual-entry" ++
    metadataLine "firmware" "pending-manual-entry" ++
    metadataLine "capture_date" "pending-manual-entry" ++ metadataLine "sanitizer" "pending" ++
    metadataLine "manual_redaction_attested" "false" ++
    metadataLine "expected_behavior" expectedBehavior ++
    metadataLine "state_changing_write_approved" "true" ++
    metadataLine "destructive_write_approved" "false") ++ eventText 1 events

/-! ### Merging -/

/-- `u64::saturating_add`. -/
def saturatingAdd (a b : ℕ) : ℕ := min (a + b) (2 ^ 64 - 1)

/-- The channels that are merged. -/
def mergeChannels : List String := ["D>", "D<", "N>", "N<", "M>", "M<"]

/-- The channel of an event that is merged. -/
def mergeChannel (t : Texts) : Option (List Char) → Except Failure String
  | none => fail "unsupported merge channel None"
  | some channel =>
    if String.ofList channel ∈ mergeChannels then .ok (String.ofList channel)
    else fail ("unsupported merge channel Some(" ++ debug t channel ++ ")")

/-- The event of a line, as it is merged. -/
def partialEvent (t : Texts) (base : ℕ) (line : List Char) : Except Failure CapturedEvent := do
  let (head, hex) ← okOr (splitCaptureLine line) ("unrecognized partial event: " ++ debug t line)
  let fields := splitWhitespace head
  let offset ← okOr (fields[1]?.bind parseOffset) ("invalid partial offset: " ++ debug t line)
  let channel ← mergeChannel t fields[2]?
  let bytes ← decodeHex hex
  return (saturatingAdd base offset, channel, bytes)

/-- `merge_partial_events`. -/
def mergePartialEvents (t : Texts) (text : List Char) (base : ℕ) :
    Except Failure (List CapturedEvent) := do
  let _ ← parseCaptureStructure t text
  (eventLines text).mapM (partialEvent t base)

/-- Insert before the first `@`, or at the end. -/
def insertAtEvents (capture inserted : List Char) : List Char :=
  capture.takeWhile (· ≠ '@') ++ inserted ++ capture.dropWhile (· ≠ '@')

/-- `build_merged_matrix`. -/
def buildMergedMatrix (events : List CapturedEvent) (destructive : Bool) : List Char :=
  let disconnect := events.any fun event => event.2.1 = "N<" && event.2.2.isEmpty
  let capture := eventsToV2 "hardware_matrix_raw"
    "merged direct discovery, Native proxy, and raw meter evidence" events
  let capture := insertAtEvents capture
    (metadataLine "matrix_contract" "wing-rack-3.1-v1" ++
      metadataLine "restore_verified" "true" ++
      metadataLine "concurrent_definition_write_observed" "true" ++
      metadataLine "meter_cardinality_verdict" "ambiguous")
  let capture := insertAtEvents capture
    (metadataLine "disconnect_observed" (toString disconnect))
  if destructive then
    replace "# destructive_write_approved: false".toList "# destructive_write_approved: true".toList
      capture
  else capture

/-- Where the next capture is based. -/
def nextBase (base : ℕ) (next : List CapturedEvent) : ℕ :=
  (next.getLast?.map fun event => saturatingAdd event.1 1).getD base

/-- The events of all captures. -/
def mergeEvents (t : Texts) : ℕ → List (List Char) → Except Failure (List CapturedEvent)
  | _, [] => .ok []
  | base, text :: texts => do
    let next ← mergePartialEvents t text base
    let events ← mergeEvents t (nextBase base next) texts
    return next ++ events

/-- `merge_v2`, with the texts of the captures. -/
def mergeV2 (t : Texts) (texts : List (List Char)) (destructive : Bool) :
    Except Failure (List Char) := do
  let events ← mergeEvents t 0 texts
  rejectIf (events = []) "matrix merge requires at least one partial capture"
  let capture := buildMergedMatrix events destructive
  let _ ← parseCaptureStructure t capture
  return capture

end Wingcapture

end LibWing
