import LibWing.Basic
import LibWing.Lib.Except
import Mathlib.Data.List.Basic

/-!
# OSC messages

A message of the OSC interface is an address and arguments; it fills a datagram.

* `Osc.encode` : the datagram of a message;
* `Osc.decode` : the message in a datagram.  The reader of the source walks an index over the whole
  datagram, and so does this one: an access outside of it is a `Fault` of its own.
-/

namespace LibWing

namespace Osc

/-- `MAX_PACKET_BYTES`. -/
def maxPacketBytes : ℕ := 32 * 1024

/-- `OscError`, as far as the codec reports it. -/
inductive OscError where
  | malformed (what : String)
  | tooLarge (size : ℕ)
  deriving DecidableEq, Repr

/-- `OscArg`. -/
inductive OscArg where
  | int (v : Int32)
  | float (v : F32)
  | str (v : String)
  | blob (v : List UInt8)
  deriving DecidableEq, Repr

/-- `OscMessage`. -/
structure OscMessage where
  /-- The address. -/
  addr : String
  /-- The arguments. -/
  args : List OscArg
  deriving DecidableEq, Repr

/-! ### Encoding -/

/-- What a string of `len` bytes takes up, with its NUL and its padding. -/
def paddedTotal (len : ℕ) : ℕ := (len + 1 + 3) / 4 * 4

/-- What a blob of `len` bytes is padded with. -/
def blobPad (len : ℕ) : ℕ := (4 - len % 4) % 4

/-- `push_osc_string`, as the bytes it appends. -/
def oscString (s : String) : List UInt8 :=
  utf8 s ++ List.replicate (paddedTotal (utf8 s).length - (utf8 s).length) 0

/-- `push_osc_blob`, as the bytes it appends. -/
def oscBlob (data : List UInt8) : List UInt8 :=
  i32Bytes (Int32.ofNat data.length) ++ data ++ List.replicate (blobPad data.length) 0

/-- The type tag of an argument. -/
def OscArg.tag : OscArg → Char
  | int _ => 'i'
  | float _ => 'f'
  | str _ => 's'
  | blob _ => 'b'

/-- The bytes of an argument. -/
def OscArg.bytes : OscArg → List UInt8
  | int v => i32Bytes v
  | float v => f32Bytes v
  | str v => oscString v
  | blob v => oscBlob v

/-- Whether an argument is a string with a NUL inside. -/
def OscArg.hasNul : OscArg → Bool
  | str v => (utf8 v).contains 0
  | _ => false

/-- The type tag string. -/
def tagString (args : List OscArg) : String := String.ofList (',' :: args.map OscArg.tag)

/-- `encode`. -/
def encode (msg : OscMessage) : Except OscError (List UInt8) :=
  if (utf8 msg.addr).contains 0 || msg.args.any OscArg.hasNul then
    .error (.malformed "OSC strings cannot contain embedded NULs")
  else
    let buf := oscString msg.addr ++
      if msg.args = [] then [] else oscString (tagString msg.args) ++ msg.args.flatMap OscArg.bytes
    if buf.length > maxPacketBytes then .error (.tooLarge buf.length) else .ok buf

/-! ### Decoding -/

/-- How decoding can fail. -/
inductive Fault where
  /-- The panic of an access outside of a slice. -/
  | outOfBounds
  | error (e : OscError)
  deriving DecidableEq, Repr

/-- `Err(OscError::Malformed(..))`. -/
def malformed {α : Type} (what : String) : Except Fault α := .error (.error (.malformed what))

/-- `&bytes[start..stop]`. -/
def slice (bytes : List UInt8) (start stop : ℕ) : Except Fault (List UInt8) :=
  if start ≤ stop ∧ stop ≤ bytes.length then .ok ((bytes.take stop).drop start)
  else .error .outOfBounds

/-- `bytes.get(start..stop)`. -/
def get? (bytes : List UInt8) (start stop : ℕ) : Option (List UInt8) :=
  if start ≤ stop ∧ stop ≤ bytes.length then some ((bytes.take stop).drop start) else none

variable (bytes : List UInt8)

/-- `read_osc_string`: the string, and the index after its padding. -/
def readOscString (start : ℕ) : Except Fault (String × ℕ) := do
  let tail ← slice bytes start bytes.length
  match tail.findIdx? (· = 0) with
  | none => malformed "unterminated OSC string"
  | some nul =>
    let text ← slice bytes start (start + nul)
    match fromUtf8 text with
    | none => malformed "invalid utf8 in OSC string"
    | some s =>
      if start + paddedTotal nul > bytes.length then malformed "truncated OSC string padding"
      else return (s, start + paddedTotal nul)

/-- A big-endian word, as `read_i32` and `read_f32` take it. -/
def readWord {α : Type} (word : UInt8 → UInt8 → UInt8 → UInt8 → α) (what : String) (i : ℕ) :
    Except Fault (α × ℕ) :=
  match get? bytes i (i + 4) with
  | none => malformed what
  | some [a, b, c, d] => .ok (word a b c d, i + 4)
  | some _ => .error .outOfBounds

/-- `read_i32`. -/
def readI32 : ℕ → Except Fault (Int32 × ℕ) := readWord bytes i32OfBytes "truncated int32 argument"

/-- `read_f32`. -/
def readF32 : ℕ → Except Fault (F32 × ℕ) := readWord bytes f32OfBytes "truncated float32 argument"

/-- `read_blob`. -/
def readBlob (i : ℕ) : Except Fault (List UInt8 × ℕ) := do
  let (size, i) ← readI32 bytes i
  if size.toInt < 0 then malformed "negative blob size"
  else
    let size := size.toInt.toNat
    match get? bytes i (i + size) with
    | none => malformed "truncated blob data"
    | some data =>
      if i + size + blobPad size > bytes.length then malformed "truncated blob padding"
      else return (data, i + size + blobPad size)

/-- The argument a type tag announces. -/
def readArg (tag : Char) (i : ℕ) : Except Fault (OscArg × ℕ) :=
  if tag = 'i' then do
    let (v, i) ← readI32 bytes i
    return (.int v, i)
  else if tag = 'f' then do
    let (v, i) ← readF32 bytes i
    return (.float v, i)
  else if tag = 's' then do
    let (v, i) ← readOscString bytes i
    return (.str v, i)
  else if tag = 'b' then do
    let (v, i) ← readBlob bytes i
    return (.blob v, i)
  else malformed "unsupported OSC type tag"

/-- The loop over the type tags. -/
def readArgs : List Char → ℕ → Except Fault (List OscArg × ℕ)
  | [], i => .ok ([], i)
  | tag :: tags, i => do
    let (arg, i) ← readArg bytes tag i
    let (args, i) ← readArgs tags i
    return (arg :: args, i)

/-- `decode`. -/
def decode : Except Fault OscMessage := do
  let (addr, i) ← readOscString bytes 0
  if addr.toList.head? ≠ some '/' then
    malformed "address pattern must start with '/' (bundles are not supported)"
  else if i ≥ bytes.length then return ⟨addr, []⟩
  else do
    let (tag, i) ← readOscString bytes i
    match tag.toList with
    | ',' :: tags =>
      let (args, i) ← readArgs bytes tags i
      if i ≠ bytes.length then malformed "trailing bytes after OSC arguments"
      else return ⟨addr, args⟩
    | _ => malformed "type tag string must start with ','"

end Osc

end LibWing
