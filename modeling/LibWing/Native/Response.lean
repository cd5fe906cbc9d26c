import LibWing.Native.Channel
import LibWing.Node.Def

/-!
# The response encoder

The server's side of the Native stream: `encode_responses` puts a batch of responses on the Audio
Engine channel.  The encoder keeps the running length of the frame and refuses the response that
would cross its ceiling; `encode_responses` sets the ceiling to `usize::MAX`.

* `encodeResponse` : the unescaped token of one response;
* `BoundedResponseEncoder` : the incremental encoder;
* `encodeResponses_eq_ok` : the frame of a batch is the channel selector and the escaped tokens.
-/

namespace LibWing

open BigEndian

/-- A console-to-client response. -/
inductive NativeResponse where
  | requestEnd
  | nodeDef (d : WingNodeDef)
  | nodeData (id : Int32) (value : NativeValue)
  | authoritativeEvent (id : Int32) (value : NativeValue)
  deriving DecidableEq, Repr

/-- `usize::MAX`. -/
def usizeMax : ℕ := 2 ^ 64 - 1

/-- `NativeLimits::default().max_definition_bytes`, the ceiling the encoder puts on a body. -/
def maxDefinitionBytes : ℕ := 1024 * 1024

/-- The length of a body in front of it: sixteen bits, or the zero sentinel and thirty-two bits. -/
def definitionLength (len : ℕ) : List UInt8 :=
  if len ≤ 65535 then toBe16 (UInt16.ofNat len)
  else toBe16 0 ++ toBe32 (UInt32.ofNat len)

/-- The token of one response, before escaping. -/
def encodeResponse : NativeResponse → Result (List UInt8)
  | .requestEnd => .ok [0xde]
  | .nodeData id value | .authoritativeEvent id value => do
    let token ← encodeValue value
    return 0xd7 :: i32Bytes id ++ token
  | .nodeDef d => do
    let body ← d.toWireBytes
    if body.length > maxDefinitionBytes then throw .invalidInput
    return 0xdf :: definitionLength body.length ++ body

/-- `escaped_len`. -/
def escapedLen (payload : List UInt8) : ℕ :=
  (payload.map fun byte => if byte = escape then 2 else 1).sum

/-- Incremental form of `encode_responses_bounded`. -/
structure BoundedResponseEncoder where
  /-- The tokens so far. -/
  payload : List UInt8
  /-- How long they are on the wire, escaped. -/
  wireLen : ℕ
  /-- How long they may be. -/
  maxWireBytes : ℕ

namespace BoundedResponseEncoder

/-- `BoundedResponseEncoder::new`; the two bytes are the channel-select prefix. -/
def new (maxWireBytes : ℕ) : BoundedResponseEncoder := ⟨[], 2, maxWireBytes⟩

/-- Add a response; a response that is refused leaves the encoder as it is. -/
def push (e : BoundedResponseEncoder) (response : NativeResponse) :
    Result BoundedResponseEncoder := do
  let encoded ← encodeResponse response
  let nextWireLen := min (e.wireLen + escapedLen encoded) usizeMax
  if nextWireLen > e.maxWireBytes then throw .invalidInput
  return { e with payload := e.payload ++ encoded, wireLen := nextWireLen }

/-- The frame. -/
def finish (e : BoundedResponseEncoder) : Result (List UInt8) :=
  if e.wireLen > e.maxWireBytes then .error .invalidInput
  else .ok (appendEscaped [escape, channelBase + 1] e.payload)

/-- The loop of `encode_responses_bounded`. -/
def pushMany (e : BoundedResponseEncoder) : List NativeResponse → Result BoundedResponseEncoder
  | [] => .ok e
  | response :: responses => do
    let e ← e.push response
    e.pushMany responses

end BoundedResponseEncoder

/-- `encode_responses_bounded`. -/
def encodeResponsesBounded (responses : List NativeResponse) (maxWireBytes : ℕ) :
    Result (List UInt8) := do
  let e ← (BoundedResponseEncoder.new maxWireBytes).pushMany responses
  e.finish

/-- `encode_responses`. -/
def encodeResponses (responses : List NativeResponse) : Result (List UInt8) :=
  encodeResponsesBounded responses usizeMax

/-! ### The frame of a batch -/

/-- The tokens of a batch, one after the other. -/
def encodeTokens : List NativeResponse → Result (List UInt8)
  | [] => .ok []
  | response :: responses => do
    let token ← encodeResponse response
    let rest ← encodeTokens responses
    return token ++ rest

namespace BoundedResponseEncoder

/-- A response that is accepted adds its token. -/
theorem push_eq_ok {e e' : BoundedResponseEncoder} {response : NativeResponse}
    (h : e.push response = .ok e') :
    ∃ token, encodeResponse response = .ok token ∧ e'.payload = e.payload ++ token := by
  obtain ⟨token, ht, h⟩ := Except.bind_eq_ok.1 h
  by_cases hgt : min (e.wireLen + escapedLen token) usizeMax > e.maxWireBytes
  · dsimp only at h
    rw [if_pos hgt] at h
    cases h
  · dsimp only at h
    rw [if_neg hgt] at h
    cases Except.pure_eq_ok.1 h
    exact ⟨token, ht, rfl⟩

theorem pushMany_eq_ok {e e' : BoundedResponseEncoder} {responses : List NativeResponse}
    (h : e.pushMany responses = .ok e') :
    ∃ tokens, encodeTokens responses = .ok tokens ∧ e'.payload = e.payload ++ tokens := by
  induction responses generalizing e with
  | nil =>
    cases h
    exact ⟨[], rfl, (List.append_nil _).symm⟩
  | cons response responses ih =>
    obtain ⟨e₁, h₁, h⟩ := Except.bind_eq_ok.1 h
    obtain ⟨token, ht, hp₁⟩ := push_eq_ok h₁
    obtain ⟨rest, hr, hp⟩ := ih h
    refine ⟨token ++ rest, ?_, ?_⟩
    · simp only [encodeTokens, ht, hr, bind, Except.bind]
      rfl
    · rw [hp, hp₁, List.append_assoc]

end BoundedResponseEncoder

/-- **The frame of a batch**: the selector of the audio channel and the escaped tokens. -/
theorem encodeResponses_eq_ok {responses : List NativeResponse} {wire : List UInt8}
    (h : encodeResponses responses = .ok wire) :
    ∃ tokens, encodeTokens responses = .ok tokens ∧
      wire = [escape, channelBase + 1] ++ escapeBytes tokens := by
  obtain ⟨e, he, hfin⟩ := Except.bind_eq_ok.1 h
  obtain ⟨tokens, ht, hp⟩ := BoundedResponseEncoder.pushMany_eq_ok he
  unfold BoundedResponseEncoder.finish at hfin
  split_ifs at hfin with hgt
  cases hfin
  refine ⟨tokens, ht, ?_⟩
  rw [appendEscaped_eq, hp]
  rfl

end LibWing
