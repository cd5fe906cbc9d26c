import LibWing.Tools.Reading
import LibWing.Tools.Streams

/-!
# Sanitizing a capture

The raw capture is rewritten line by line: its comments stay if nothing is found in them, the
payloads are redacted by streams, and the line that names the sanitizer is put in place.

* `Draft` : what has been read, with an empty line for each payload; `Draft.readLine` : one line
  more;
* `patch` : the payloads are written into their lines;
* `sanitizeText` : `sanitize_file`, from the text that was read to the text that is published.

Reading the file and publishing the output are not part of it.
-/

namespace LibWing

namespace Wingcapture

open Text Redact Stateful

/-- `SANITIZER_VERSION`. -/
def sanitizerVersion : String := "wingcapture/3"

/-- The line of metadata that names the sanitizer. -/
def sanitizerLine : List Char := ("# sanitizer: " ++ sanitizerVersion).toList

/-- Metadata, behind its `#`, that names a sanitizer. -/
def namesSanitizer (rest : List Char) : Bool :=
  "sanitizer:".toList.isPrefixOf (rest.dropWhile isWhitespace)

/-- `Debug` of a list of findings. -/
def debugFindings (findings : List Finding) : String :=
  "[" ++ ", ".intercalate (findings.map Finding.debug) ++ "]"

/-! ### Reading -/

/-- What has been read of a capture that is sanitized. -/
structure Draft where
  /-- The lines so far. -/
  outLines : List (List Char)
  /-- One of them is the header of the sanitizer. -/
  sawSanitizerHeader : Bool
  /-- The events of the text. -/
  events : List Event
  /-- Where the line of each payload is, and what stands in front of the payload. -/
  payloadLines : List (ℕ × List Char)

/-- Before the first line. -/
def Draft.start : Draft := ⟨[], false, [], []⟩

/-- Read a comment. -/
def Draft.readComment (t : Texts) (d : Draft) (line : List Char) : Except Failure Draft := do
  let findings := scan (utf8 (String.ofList line.tail))
  rejectIf (findings ≠ [])
    ("header/comment line carries un-redacted content, edit by hand: " ++ debug t line ++ " (" ++
      debugFindings findings ++ ")")
  if namesSanitizer line.tail then
    return { d with outLines := d.outLines ++ [sanitizerLine], sawSanitizerHeader := true }
  else return { d with outLines := d.outLines ++ [line] }

/-- Read the line of a payload. -/
def Draft.readPayload (t : Texts) (d : Draft) (line : List Char) : Except Failure Draft := do
  let (head, hex) ← okOr (splitCaptureLine line) ("unrecognized fixture line: " ++ debug t line)
  let bytes ← (decodeHex (trim hex)).mapError (Failure.inLine t line)
  let channel ← (splitWhitespace head).getLast?.elim (.error .panic) .ok
  return { d with
    events := d.events ++ [(String.ofList channel, bytes)]
    payloadLines := d.payloadLines ++ [(d.outLines.length, head)]
    outLines := d.outLines ++ [[]] }

/-- Read a line. -/
def Draft.readLine (t : Texts) (d : Draft) (raw : List Char) : Except Failure Draft :=
  let line := trimEnd raw
  if line = [] then .ok d
  else if line.head? = some '#' then d.readComment t line
  else d.readPayload t line

/-- Read the lines. -/
def Draft.readLines (t : Texts) : Draft → List (List Char) → Except Failure Draft
  | d, [] => .ok d
  | d, line :: lines => do
    let d ← d.readLine t line
    Draft.readLines t d lines

/-! ### Writing -/

/-- Write the payloads into their lines. -/
def patch : List ((ℕ × List Char) × Event) → List (List Char) → List (List Char)
  | [], outLines => outLines
  | ((index, head), (_, bytes)) :: rest, outLines =>
    patch rest (outLines.set index (head ++ ' ' :: encodeHex bytes))

/-- The check of the comments that are written. -/
def checkComments (t : Texts) : List (List Char) → Except Failure Unit
  | [] => .ok ()
  | line :: lines => do
    rejectIf (line.head? = some '#' ∧ scan (utf8 (String.ofList line.tail)) ≠ [])
      ("sanitized output still fails the scan: " ++ debug t line)
    checkComments t lines

/-- The lines that are written. -/
def sanitizedLines (t : Texts) (text : List Char) : Except Failure (List (List Char)) := do
  let draft ← Draft.readLines t .start (lines text)
  let (result, events) := outcome redactEvents draft.events
  result.mapError Failure.error
  rejectIf (scanEvents events ≠ []) "sanitized streams still contain sensitive identifiers"
  let filled := patch (draft.payloadLines.zip events) draft.outLines
  let outLines := if draft.sawSanitizerHeader then filled else sanitizerLine :: filled
  checkComments t outLines
  return outLines

/-- `sanitize_file`. -/
def sanitizeText (t : Texts) (text : List Char) : Except Failure (List Char) := do
  let outLines ← sanitizedLines t text
  return ['\n'].intercalate outLines ++ ['\n']

end Wingcapture

end LibWing
