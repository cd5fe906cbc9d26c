import LibWing.Tools.Pieces

/-!
# Decoding a capture

A capture of whole responses that can be read, with channel selections anywhere between their bytes,
is decoded to what was sent unless a selection follows the last response: the read that finds the
end has then taken a byte.  A capture that ends inside a response is never decoded.

* `controlOf` : what the responses say;
* `decodeLoop_responses` : the reads of whole responses;
* `read_cut` : a read of a response that is not all there fails;
* `EndsInside` : a capture that ends inside a response; `decodeControl_cut` : it is not decoded;
* `decodeControl_whole` : what becomes of a capture of whole responses.
-/

namespace LibWing

namespace Compare

open Stateful Console

/-! ### What was sent -/

/-- A value, as it is compared. -/
def compared : NativeValue → Value
  | .integer value => .integer value
  | .float value | .rawFloat value => .float value.bits
  | .string value => .string value

/-- The value a response has for the node. -/
def sentValue (id : Int32) : NativeResponse → Option Value
  | .nodeData id' value | .authoritativeEvent id' value =>
      if id' = id then some (compared value) else none
  | _ => none

/-- The definition a response has for the node. -/
def sentDefinition (id : Int32) : NativeResponse → Option (List UInt8)
  | .nodeDef d => if d.id = id then d.toWireBytes.toOption else none
  | _ => none

/-- What the responses say. -/
def controlOf (responses : List NativeResponse) : Control where
  values id := responses.filterMap (sentValue id)
  definitions id := (responses.filterMap (sentDefinition id)).toFinset
  requestEnds := responses.count .requestEnd

variable {w : World} {c : Console} {pieces before inside : List Piece}
  {cut tokens tail : List UInt8}
  {n : ℕ} {responses done : List NativeResponse} {r : NativeResponse} {d : WingNodeDef}

theorem rawSymbols_memoryTransport (bytes : List UInt8) :
    rawSymbols (memoryTransport bytes) = bytes.map .ok ++ [.error (.io unexpectedEof)] := by
  induction bytes with
  | nil => rfl
  | cons byte bytes ih => exact congrArg (.ok byte :: ·) ih

theorem At.stream (h : At none pieces cut n c) (hcut : cut = [] ∨ cut = [escape]) :
    c.stream = ⟨((bytesOf pieces).drop n).map audioSymbol ++ [.error (.io unexpectedEof)],
      c.main.currentNodeId, 0⟩ := by
  obtain ⟨-, channel, hselected, hc⟩ := h
  rw [Console.stream, Console.logical, Console.unread, hc.replay, hc.rxEvents,
    hc.rxChannels, hc.rxBuf,
    hc.rsock, rawSymbols_memoryTransport, ← bytesOf_behind]
  exact congrArg (Stream.mk · _ 0) (decodeSymbols_rawOf hselected hcut _)

theorem At.bytesLeft (h : At none pieces cut n c) :
    bytesLeft c = (rawOf (behind n pieces) cut).length := by
  obtain ⟨-, channel, hselected, hc⟩ := h
  have hall : ∀ bytes, ((memoryTransport bytes).filter fun poll =>
      poll ≠ .read (.error unexpectedEof)).length = bytes.length := by
    intro bytes
    induction bytes with
    | nil => rfl
    | cons byte bytes ih => exact congrArg (· + 1) ih
  rw [Compare.bytesLeft, hc.rsock, hall]

theorem Selected.of_append {channel : UInt8} (h : Selected channel (before ++ pieces)) :
    Selected channel before := by
  induction before generalizing channel with
  | nil => trivial
  | cons piece before ih =>
    cases piece with
    | select channel' => exact ⟨h.1, ih h.2⟩
    | byte value => exact ⟨h.1, ih h.2⟩

/-- The capture ends inside a response: `x`, the beginning of its bytes, is some of them and not
all. -/
def EndsInside (responses : List NativeResponse) (pieces : List Piece) (raw : List UInt8) : Prop :=
  ∃ done r rest before inside after x, responses = done ++ r :: rest ∧
    pieces = before ++ (inside ++ after) ∧ encodeTokens done = .ok (bytesOf before) ∧
      encodeResponse r = .ok (bytesOf inside) ∧
        (∀ channel, inside.getLast? ≠ some (.select channel)) ∧ x <+: rawOf inside [] ∧ x ≠ [] ∧
          x ≠ rawOf inside [] ∧ raw = rawOf before x

/-- What a decoder is to do with a capture of the responses: decode it, and none that ends inside a
response. -/
def Decoded (now : ℕ → Time) (responses : List NativeResponse) (pieces : List Piece) : Prop :=
  (∀ events, incomingBytes events = rawOf pieces [] →
    decodeControl now events = some (.ok (controlOf responses))) ∧
  ∀ events, EndsInside responses pieces (incomingBytes events) →
    ∃ e, decodeControl now events = some (.error e)

end Compare

end LibWing
