import LibWing.Lib.Except
import LibWing.Native.Channel
import Mathlib.Data.List.Count

/-!
# What is framed is read back

A client sends payloads on a channel that it selects, or on the channel that is selected already.
However the stream is cut, the decoder gives the selections and the payloads back.

* `ChannelDecoder.pushAll` : pushing fragments one by one;
* `Sent`, `Sent.encode`, `Sent.decoded` : what is sent, its bytes, and what should be read;
* `framing_roundTrip` : it is read, and the decoder ends outside an escape.
-/

namespace LibWing

namespace ChannelDecoder

/-- Push fragments one by one and collect their events. -/
def pushAll (d : ChannelDecoder) : List (List UInt8) → Result (List ChannelEvent) × ChannelDecoder
  | [] => (.ok [], d)
  | fragment :: fragments =>
    match d.push fragment with
    | (.error e, d') => (.error e, d')
    | (.ok events, d') =>
      match pushAll d' fragments with
      | (.error e, d'') => (.error e, d'')
      | (.ok more, d'') => (.ok (events ++ more), d'')

variable {d d' : ChannelDecoder}

theorem pushAll_cons {fragment : List UInt8} {fragments : List (List UInt8)}
    {first more : List ChannelEvent} {d₁ : ChannelDecoder} (h : d.push fragment = (.ok first, d₁))
    (hs : d₁.pushAll fragments = (.ok more, d')) :
    d.pushAll (fragment :: fragments) = (.ok (first ++ more), d') := by
  simp only [pushAll, h, hs]

theorem pushAll_of_flatten {fragments : List (List UInt8)} {events : List ChannelEvent}
    (h : d.push fragments.flatten = (.ok events, d')) : d.pushAll fragments = (.ok events, d') := by
  induction fragments generalizing d events with
  | nil => exact h
  | cons fragment fragments ih =>
    rw [List.flatten_cons, push_append_eq_ok] at h
    obtain ⟨first, d₁, more, h₁, h₂, rfl⟩ := h
    exact pushAll_cons h₁ (ih h₂)

end ChannelDecoder

/-- What a client sends. -/
inductive Sent where
  /-- A payload on a channel. -/
  | onChannel (channel : UInt8) (payload : List UInt8)
  /-- A payload on the channel that is selected. -/
  | plain (payload : List UInt8)
  deriving DecidableEq, Repr

namespace Sent

/-- Its bytes: `encode_channel`, or `append_escaped` as `set_binary_node` uses it. -/
def encode : Sent → Result (List UInt8)
  | onChannel channel payload => encodeChannel channel payload
  | plain payload => .ok (appendEscaped [] payload)

/-- What is read from it on a channel, and the channel that is selected then.  Nothing can be read
before a channel is selected. -/
def decoded : Option UInt8 → Sent → Option (List ChannelEvent × Option UInt8)
  | _, onChannel channel payload =>
    some (.selected channel :: payload.map (.data channel), some channel)
  | some channel, plain payload => some (payload.map (.data channel), some channel)
  | none, plain payload => if payload = [] then some ([], none) else none

/-- What is read from all that is sent. -/
def decodedAll : Option UInt8 → List Sent → Option (List ChannelEvent × Option UInt8)
  | channel, [] => some ([], channel)
  | channel, sent :: rest => do
    let (events, channel) ← sent.decoded channel
    let (more, channel) ← decodedAll channel rest
    return (events ++ more, channel)

end Sent

open ChannelDecoder

theorem encodeChannel_eq_ok {channel : UInt8} {payload bytes : List UInt8} :
    encodeChannel channel payload = .ok bytes ↔
      channel < channelCount ∧ bytes = [escape, channelBase + channel] ++ escapeBytes payload := by
  rw [encodeChannel, appendEscaped_eq]
  split_ifs with h
  · exact ⟨nofun, fun hlt => absurd hlt.1 (UInt8.not_lt.2 h)⟩
  · exact ⟨fun heq => ⟨UInt8.not_le.1 h, (Except.ok.inj heq).symm⟩, fun heq => by rw [heq.2]⟩

/-- **Each piece** is read back, from any state outside an escape. -/
theorem push_encode {sent : Sent} {bytes : List UInt8} (hbytes : sent.encode = .ok bytes)
    {channel channel' : Option UInt8} {events : List ChannelEvent}
    (hdecoded : sent.decoded channel = some (events, channel')) :
    push ⟨false, channel⟩ bytes = (.ok events, ⟨false, channel'⟩) := by
  cases sent with
  | onChannel ch payload =>
    obtain ⟨hlt, rfl⟩ := encodeChannel_eq_ok.1 hbytes
    cases hdecoded
    exact push_append_eq_ok.2 ⟨_, _, _, push_select ch hlt rfl, push_escapeBytes ch payload, rfl⟩
  | plain payload =>
    rw [Sent.encode, appendEscaped_eq, List.nil_append] at hbytes
    cases hbytes
    cases channel with
    | some ch =>
      cases hdecoded
      exact push_escapeBytes ch payload
    | none =>
      rw [Sent.decoded] at hdecoded
      split_ifs at hdecoded with hempty
      cases hdecoded
      rw [hempty]
      rfl

theorem push_encodeAll {sent : List Sent} {pieces : List (List UInt8)}
    (hpieces : sent.mapM Sent.encode = .ok pieces) {channel channel' : Option UInt8}
    {events : List ChannelEvent} (hdecoded : Sent.decodedAll channel sent =
      some (events, channel')) :
    push ⟨false, channel⟩ pieces.flatten = (.ok events, ⟨false, channel'⟩) := by
  induction sent generalizing pieces channel events with
  | nil =>
    cases hpieces
    cases hdecoded
    rfl
  | cons first rest ih =>
    rw [List.mapM_cons] at hpieces
    obtain ⟨bytes, hbytes, hpieces⟩ := Except.bind_eq_ok.1 hpieces
    obtain ⟨more, hmore, hpieces⟩ := Except.bind_eq_ok.1 hpieces
    cases hpieces
    obtain ⟨⟨events₁, channel₁⟩, hfirst, hdecoded⟩ := Option.bind_eq_some_iff.1 hdecoded
    obtain ⟨⟨events₂, channel₂⟩, hrest, hdecoded⟩ := Option.bind_eq_some_iff.1 hdecoded
    cases hdecoded
    rw [List.flatten_cons]
    exact push_append_eq_ok.2 ⟨_, _, _, push_encode hbytes hfirst, ih hmore hrest, rfl⟩

theorem length_escapeBytes (payload : List UInt8) :
    (escapeBytes payload).length = payload.length + payload.count escape := by
  induction payload with
  | nil => rfl
  | cons byte rest ih =>
    rw [escapeBytes, List.count_cons]
    by_cases h : byte = escape
    · simp [h, ih]
      omega
    · simp [h, ih]
      omega

/-- **What is framed is read back.**  Payloads on any channels, or on the channel that is selected,
are read as they were sent, from any state outside an escape and however the stream is cut; the
decoder ends outside an escape. -/
theorem framing_roundTrip :
    (∀ (channel : UInt8) (payload : List UInt8), channel < channelCount →
      ∃ bytes, encodeChannel channel payload = .ok bytes) ∧
    (∀ (sent : List Sent) (pieces fragments : List (List UInt8)) (d : ChannelDecoder)
        (events : List ChannelEvent) (channel : Option UInt8), d.escaped = false →
      sent.mapM Sent.encode = .ok pieces → fragments.flatten = pieces.flatten →
      Sent.decodedAll d.channel sent = some (events, channel) →
      d.pushAll fragments = (.ok events, ⟨false, channel⟩)) ∧
    ∀ payload : List UInt8,
      (appendEscaped [] payload).length = payload.length + payload.count escape := by
  refine ⟨fun channel payload h => ⟨_, encodeChannel_eq_ok.2 ⟨h, rfl⟩⟩, ?_, fun payload => ?_⟩
  · rintro sent pieces fragments ⟨escaped, current⟩ events channel rfl hpieces hcut hdecoded
    refine pushAll_of_flatten ?_
    rw [hcut]
    exact push_encodeAll hpieces hdecoded
  · rw [appendEscaped_eq, List.nil_append]
    exact length_escapeBytes payload

/-- Two payloads, cut inside an escape. -/
theorem framing_roundTrip_cut :
    pushAll default [[0xdf, 0xd1, 0xdf], [0xde, 0x01, 0xdf], [0xde]] =
      (.ok [.selected 1, .data 1 0xdf, .data 1 0x01, .data 1 0xdf], on 1) :=
  framing_roundTrip.2.1 [.onChannel 1 [0xdf], .plain [0x01, 0xdf]]
    [[0xdf, 0xd1, 0xdf, 0xde], [0x01, 0xdf, 0xde]] _ default _ (some 1) rfl rfl rfl rfl

end LibWing
