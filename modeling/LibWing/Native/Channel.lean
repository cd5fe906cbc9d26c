import LibWing.Basic
import LibWing.Lib.Byte
import Mathlib.Data.List.Basic

/-!
# Channel framing of the Native stream

The Native TCP stream multiplexes fourteen channels.  The byte `0xdf` escapes: followed by
`0xd0 … 0xdd` it selects a channel, followed by `0xde` or `0xdf` it stands for one data byte
`0xdf`, and followed by any other byte it stands for itself and that byte.

* `ChannelDecoder` : the incremental decoder (`ChannelDecoder::push_byte`, `push`);
* `appendEscaped`, `encodeChannel` : the encoder;
* `push_escapeBytes` : decoding an escaped payload gives the payload back and leaves the decoder
  outside an escape.
-/

namespace LibWing

/-- `ESCAPE`. -/
def escape : UInt8 := 0xdf

/-- `ESCAPED_ESCAPE`. -/
def escapedEscape : UInt8 := 0xde

/-- `CHANNEL_BASE`. -/
def channelBase : UInt8 := 0xd0

/-- `CHANNEL_COUNT`. -/
def channelCount : UInt8 := 14

/-- A de-framed Native stream event. -/
inductive ChannelEvent where
  /-- The stream selected a channel. -/
  | selected (channel : UInt8)
  /-- One logical payload byte on the selected channel. -/
  | data (channel byte : UInt8)
  deriving DecidableEq, Repr

/-- The channel selector and escape decoder. -/
structure ChannelDecoder where
  /-- The byte before was an escape. -/
  escaped : Bool
  /-- The selected channel. -/
  channel : Option UInt8
  deriving DecidableEq, Repr

namespace ChannelDecoder

/-- `ChannelDecoder::default`. -/
def default : ChannelDecoder := ⟨false, none⟩

/-- Decode one byte.  A raw escape token emits two events. -/
def pushByte (d : ChannelDecoder) (byte : UInt8) :
    Result (Option ChannelEvent × Option ChannelEvent) × ChannelDecoder :=
  if !d.escaped then
    if byte = escape then (.ok (none, none), { d with escaped := true })
    else match d.channel with
      | none => (.error .invalidData, d)
      | some channel => (.ok (some (.data channel byte), none), d)
  else
    let d := { d with escaped := false }
    if byte = escapedEscape ∨ byte = escape then
      match d.channel with
      | none => (.error .invalidData, d)
      | some channel => (.ok (some (.data channel escape), none), d)
    else if channelBase ≤ byte ∧ byte ≤ 0xdd then
      (.ok (some (.selected (byte - channelBase)), none),
        { d with channel := some (byte - channelBase) })
    else match d.channel with
      | none => (.error .invalidData, d)
      | some channel => (.ok (some (.data channel escape), some (.data channel byte)), d)

/-- The events of `pushByte` in order (`into_iter().flatten()`). -/
def flatten (events : Option ChannelEvent × Option ChannelEvent) : List ChannelEvent :=
  events.1.toList ++ events.2.toList

/-- Consume a fragment and return every complete logical event. -/
def push (d : ChannelDecoder) : List UInt8 → Result (List ChannelEvent) × ChannelDecoder
  | [] => (.ok [], d)
  | byte :: rest =>
    match d.pushByte byte with
    | (.error e, d') => (.error e, d')
    | (.ok events, d') =>
      match push d' rest with
      | (.error e, d'') => (.error e, d'')
      | (.ok more, d'') => (.ok (flatten events ++ more), d'')

/-- Reject a stream ending halfway through an escape sequence. -/
def finish (d : ChannelDecoder) : Result Unit :=
  if d.escaped then .error .invalidData else .ok ()

end ChannelDecoder

/-- Append `payload` to `out`, escaping every `0xdf`. -/
def appendEscaped (out : List UInt8) : List UInt8 → List UInt8
  | [] => out
  | byte :: rest =>
    if byte = escape then appendEscaped (out ++ [byte] ++ [escapedEscape]) rest
    else appendEscaped (out ++ [byte]) rest

/-- Encode one complete logical payload on `channel`. -/
def encodeChannel (channel : UInt8) (payload : List UInt8) : Result (List UInt8) :=
  if channel ≥ channelCount then .error .invalidInput
  else .ok (appendEscaped [escape, channelBase + channel] payload)

/-! ### Escaping -/

/-- The escaped form of a payload. -/
def escapeBytes : List UInt8 → List UInt8
  | [] => []
  | byte :: rest =>
    if byte = escape then byte :: escapedEscape :: escapeBytes rest
    else byte :: escapeBytes rest

theorem appendEscaped_eq (out payload : List UInt8) :
    appendEscaped out payload = out ++ escapeBytes payload := by
  induction payload generalizing out with
  | nil => simp [appendEscaped, escapeBytes]
  | cons byte rest ih =>
    simp only [appendEscaped, escapeBytes]
    split_ifs <;> simp [ih]

@[simp] theorem escapeBytes_nil : escapeBytes [] = [] := rfl

theorem escapeBytes_append (a b : List UInt8) :
    escapeBytes (a ++ b) = escapeBytes a ++ escapeBytes b := by
  induction a with
  | nil => rfl
  | cons byte rest ih =>
    simp only [List.cons_append, escapeBytes, ih]
    split_ifs <;> simp

theorem escapeBytes_cons {byte : UInt8} (h : byte ≠ escape) (rest : List UInt8) :
    escapeBytes (byte :: rest) = byte :: escapeBytes rest := by
  simp [escapeBytes, h]

/-- A byte other than `0xdf` is its own escaped form. -/
theorem escapeBytes_singleton {byte : UInt8} (h : byte ≠ escape) : escapeBytes [byte] = [byte] := by
  simp [escapeBytes, h]

/-! ### Decoding -/

namespace ChannelDecoder

variable {d d' : ChannelDecoder}

theorem push_cons_eq_ok {byte : UInt8} {rest : List UInt8} {events : List ChannelEvent} :
    d.push (byte :: rest) = (.ok events, d') ↔
      ∃ first d₁ more, d.pushByte byte = (.ok first, d₁) ∧ d₁.push rest = (.ok more, d') ∧
        events = flatten first ++ more := by
  constructor
  · intro h
    simp only [push] at h
    split at h
    · cases h
    · rename_i first d₁ h₁
      split at h
      · cases h
      · rename_i more d₂ h₂
        cases h
        exact ⟨first, d₁, more, h₁, h₂, rfl⟩
  · rintro ⟨first, d₁, more, h₁, h₂, rfl⟩
    simp only [push, h₁, h₂]

/-- Decoding the framing splits along every cut. -/
theorem push_append_eq_ok {a b : List UInt8} {events : List ChannelEvent} :
    d.push (a ++ b) = (.ok events, d') ↔
      ∃ first d₁ more, d.push a = (.ok first, d₁) ∧ d₁.push b = (.ok more, d') ∧
        events = first ++ more := by
  induction a generalizing d events with
  | nil =>
    constructor
    · intro h
      exact ⟨[], d, events, rfl, h, rfl⟩
    · rintro ⟨first, d₁, more, h₁, h₂, rfl⟩
      cases h₁
      exact h₂
  | cons byte rest ih =>
    rw [List.cons_append, push_cons_eq_ok]
    constructor
    · rintro ⟨first, d₁, more, h₁, h₂, rfl⟩
      obtain ⟨first', d₂, more', h₂', h₃, rfl⟩ := ih.1 h₂
      exact ⟨flatten first ++ first', d₂, more',
        push_cons_eq_ok.2 ⟨first, d₁, first', h₁, h₂', rfl⟩,
        h₃, (List.append_assoc _ _ _).symm⟩
    · rintro ⟨first, d₂, more, h₁, h₂, rfl⟩
      obtain ⟨first', d₁, more', h₀, h₁', rfl⟩ := push_cons_eq_ok.1 h₁
      exact ⟨first', d₁, more' ++ more, h₀, ih.2 ⟨more', d₂, more, h₁', h₂, rfl⟩,
        List.append_assoc _ _ _⟩

/-- The decoder on channel `ch`, outside an escape. -/
def on (ch : UInt8) : ChannelDecoder := ⟨false, some ch⟩

theorem pushByte_on {ch byte : UInt8} (h : byte ≠ escape) :
    (on ch).pushByte byte = (.ok (some (.data ch byte), none), on ch) := by
  simp [pushByte, on, h]

/-- **An escaped payload decodes to the payload**, on the selected channel, and leaves the decoder
outside an escape. -/
theorem push_escapeBytes (ch : UInt8) (payload : List UInt8) :
    (on ch).push (escapeBytes payload) = (.ok (payload.map (.data ch)), on ch) := by
  induction payload with
  | nil => rfl
  | cons byte rest ih =>
    simp only [escapeBytes]
    split_ifs with h
    · have h₁ : (on ch).pushByte byte = (.ok (none, none), ⟨true, some ch⟩) := by
        simp [pushByte, on, h]
      have h₂ : pushByte ⟨true, some ch⟩ escapedEscape =
          (.ok (some (.data ch byte), none), on ch) := by
        simp [pushByte, on, h]
      simp only [push, h₁, h₂, ih]
      rfl
    · simp only [push, pushByte_on h, ih]
      rfl

/-- The byte that selects a channel is none of the two escape spellings, and names the channel. -/
theorem channelBase_add : ∀ ch : UInt8, ch < channelCount →
    ¬ (channelBase + ch = escapedEscape ∨ channelBase + ch = escape) ∧
      (channelBase ≤ channelBase + ch ∧ channelBase + ch ≤ 0xdd) ∧
      channelBase + ch - channelBase = ch := by
  decide +kernel

/-- Selecting a channel from any state outside an escape. -/
theorem push_select (ch : UInt8) (hch : ch < channelCount) {d : ChannelDecoder}
    (hd : d.escaped = false) : d.push [escape, channelBase + ch] = (.ok [.selected ch], on ch) := by
  obtain ⟨hne, hrange, hsub⟩ := channelBase_add ch hch
  have h₁ : d.pushByte escape = (.ok (none, none), { d with escaped := true }) := by
    simp [pushByte, hd]
  have h₂ : pushByte { d with escaped := true } (channelBase + ch) =
      (.ok (some (.selected ch), none), on ch) := by
    simp only [pushByte, hne, hrange, hsub, and_self, ↓reduceIte, Bool.not_true,
      Bool.false_eq_true]
    rfl
  simp only [push, h₁, h₂]
  rfl

end ChannelDecoder

end LibWing
