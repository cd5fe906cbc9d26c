import Mathlib.Data.Finset.Insert
import LibWing.Native.Fragment
import LibWing.Tools.Snap
import LibWing.Tools.Streams

/-!
# The evidence of a hardware capture

A hardware capture is promoted if it exercises the whole protocol.  What it shows is gathered event
by event; the bytes sent to the console are then decoded by a single push, while `compare` pushes
them as they were captured.

* `MatrixEvidence`, `MatrixEvidence.record` : what is gathered;
* `nativeRequests` : the requests of the bytes that were sent;
* `validateHardwareMatrix` : the checks, in the order in which they fail;
* `nativeRequests_iff` : the single push gives the requests of the pushes one by one if there are no
  more of them than a push may return.
-/

namespace LibWing

namespace Wingcapture

open Redact

/-! ### Evidence -/

/-- The metadata of a capture. -/
abbrev Headers := List (List Char × List Char)

/-- The value of a key. -/
def Headers.get (headers : Headers) (key : String) : Option (List Char) := headers.lookup key.toList

/-- `MatrixEvidence`. -/
structure MatrixEvidence where
  /-- A console was asked for. -/
  discoveryRequest : Bool
  /-- One has answered. -/
  discoveryReply : Bool
  /-- What the console has sent. -/
  nativeIn : List UInt8
  /-- What the client has sent. -/
  nativeOut : List UInt8
  /-- How many meter frames there are. -/
  meterFrames : ℕ
  /-- The tokens of the meters in them. -/
  meterTokens : Finset UInt32
  /-- The session has ended. -/
  disconnect : Bool

namespace MatrixEvidence

/-- `MatrixEvidence::default`. -/
def default : MatrixEvidence := ⟨false, false, [], [], 0, ∅, false⟩

/-- The report token of a meter frame, whose length has been checked. -/
def meterToken : List UInt8 → Option UInt32
  | a :: b :: c :: d :: _ => some (BigEndian.fromBe32 a b c d)
  | _ => none

/-- Take an event. -/
def record (m : MatrixEvidence) (event : Event) : MatrixEvidence :=
  let (channel, bytes) := event
  if channel = "D>" then
    { m with discoveryRequest := m.discoveryRequest || (utf8 "WING?").isPrefixOf bytes }
  else if channel = "D<" then
    { m with discoveryReply := m.discoveryReply || (utf8 "WING,").isPrefixOf bytes }
  else if channel = "N>" then { m with nativeOut := m.nativeOut ++ bytes }
  else if channel = "N<" then
    { m with nativeIn := m.nativeIn ++ bytes, disconnect := m.disconnect || bytes.isEmpty }
  else if channel = "M>" then { m with nativeOut := m.nativeOut ++ bytes }
  else if channel = "M<" then
    { m with
      meterFrames := m.meterFrames + 1
      meterTokens := m.meterTokens ∪ (meterToken bytes).toList.toFinset }
  else m

/-- The evidence of events. -/
def ofEvents (events : List Event) : MatrixEvidence := events.foldl record default

end MatrixEvidence

/-! ### The checks -/

/-- The framing of the bytes that were received. -/
def responseFraming (t : Texts) (nativeIn : List UInt8) : Except String Unit :=
  match ChannelDecoder.default.push nativeIn with
  | (.error e, _) => .error ("invalid Native response framing: " ++ t.error e)
  | (.ok _, framing) =>
    framing.finish.mapError fun e => "incomplete Native response framing: " ++ t.error e

/-- The requests in the bytes that were sent. -/
def nativeRequests (t : Texts) (nativeOut : List UInt8) : Except String (List NativeRequest) :=
  match (NativeRequestDecoder.new .default).push nativeOut with
  | (.error e, _) => .error ("invalid Native request stream: " ++ t.error e)
  | (.ok requests, decoder) => do
    decoder.finish.mapError fun e => "incomplete Native request stream: " ++ t.error e
    return requests

/-- What the requests exercise. -/
structure Exercised where
  /-- A value was asked for. -/
  get : Bool
  /-- A definition was asked for. -/
  definition : Bool
  /-- A value was written. -/
  set : Bool
  /-- The meters that were subscribed to. -/
  subscribe : Finset UInt32
  /-- The meters that were renewed. -/
  renew : Finset UInt32
  /-- A keepalive was sent. -/
  keepalive : Bool

/-- Take a request. -/
def Exercised.add (x : Exercised) : NativeRequest → Exercised
  | .get _ | .bulkData _ => { x with get := true }
  | .definition _ | .bulkDefinition _ => { x with definition := true }
  | .set _ _ | .toggle _ | .step _ _ => { x with set := true }
  | .meterSubscribe _ reportId _ => { x with subscribe := insert reportId x.subscribe }
  | .meterRenew reportId => { x with renew := insert reportId x.renew }
  | .keepAlive channel => if channel = 1 then { x with keepalive := true } else x
  | .meterPort _ | .unknown _ _ => x

/-- What was to be exercised, and whether it is missing. -/
def Exercised.missing (x : Exercised) (meterTokens : Finset UInt32) : List (Bool × String) :=
  [ (!x.get, "get/data"),
    (!x.definition, "definition"),
    (!x.set, "state-changing write"),
    (x.subscribe.card < 2, "two distinct meter subscriptions"),
    (x.renew.card < 2, "renewals for two distinct meter reports"),
    (!decide (x.subscribe ⊆ x.renew), "a renewal for every subscribed meter report"),
    (!decide (x.subscribe.image (· &&& 0xffff0000) ⊆ meterTokens),
      "a raw frame for every subscribed meter report"),
    (!x.keepalive, "Native keepalive/handshake") ]

/-- `HARDWARE_MATRIX`. -/
def hardwareMatrix : String := "wing-rack-3.1-v1"

/-- `require_true`. -/
def requireTrue (headers : Headers) (key : String) : Except String Unit :=
  if headers.get key = some "true".toList then .ok ()
  else .error ("hardware matrix requires " ++ key ++ ": true")

/-- The values that one of the two keys with a choice may have. -/
def requireChoice (headers : Headers) (key : String) (choices : List String) (error : String) :
    Except String Unit :=
  if (headers.get key).any fun value => value ∈ choices.map String.toList then .ok ()
  else .error error

/-- What the metadata have to attest. -/
def requireAttested (headers : Headers) : Except String Unit := do
  if headers.get "matrix_contract" ≠ some hardwareMatrix.toList then
    throw ("hardware capture requires matrix_contract: " ++ hardwareMatrix)
  requireTrue headers "state_changing_write_approved"
  requireChoice headers "destructive_write_approved" ["true", "false"]
    "hardware matrix requires explicit destructive_write_approved: true|false"
  requireTrue headers "restore_verified"
  requireTrue headers "concurrent_definition_write_observed"
  requireTrue headers "disconnect_observed"
  requireChoice headers "meter_cardinality_verdict" ["replaces", "concurrent", "ambiguous"]
    "hardware matrix requires meter_cardinality_verdict: replaces|concurrent|ambiguous"

/-- `validate_hardware_matrix`. -/
def validateHardwareMatrix (t : Texts) (headers : Headers) (evidence : MatrixEvidence) :
    Except String Unit := do
  requireAttested headers
  if !evidence.discoveryRequest || !evidence.discoveryReply then
    throw "hardware matrix is missing discovery request/reply"
  if evidence.nativeIn.isEmpty then
    throw "hardware matrix is missing console-to-client Native traffic"
  if evidence.meterFrames < 2 then
    throw "hardware matrix requires at least two raw meter frames"
  if !evidence.disconnect then
    throw "hardware matrix is missing an explicit empty N< disconnect event"
  responseFraming t evidence.nativeIn
  let requests ← nativeRequests t evidence.nativeOut
  let exercised := requests.foldl Exercised.add ⟨false, false, false, ∅, ∅, false⟩
  let missing := (exercised.missing evidence.meterTokens).filterMap fun x =>
    if x.1 then some x.2 else none
  if missing.isEmpty then return ()
  else throw ("hardware matrix is missing " ++ ", ".intercalate missing)

/-! ### One push, and many -/

/-- The payloads that were sent to the console, as they were captured. -/
def outgoing (events : List Event) : List (List UInt8) :=
  (events.filter fun e => e.1 = "N>" ∨ e.1 = "M>").map Prod.snd

theorem nativeOut_record (m : MatrixEvidence) (event : Event) :
    (m.record event).nativeOut = m.nativeOut ++ (outgoing [event]).flatten := by
  obtain ⟨channel, bytes⟩ := event
  by_cases hout : channel = "N>" ∨ channel = "M>"
  · rcases hout with rfl | rfl <;> simp [MatrixEvidence.record, outgoing]
  · obtain ⟨hn, hm⟩ := not_or.1 hout
    simp only [MatrixEvidence.record, outgoing, hn, hm, if_false, or_self, decide_false,
      List.filter_cons, Bool.false_eq_true, List.filter_nil, List.map_nil, List.flatten_nil,
      List.append_nil]
    split_ifs <;> rfl

theorem nativeOut_foldl (m : MatrixEvidence) (events : List Event) :
    (events.foldl MatrixEvidence.record m).nativeOut =
      m.nativeOut ++ (outgoing events).flatten := by
  induction events generalizing m with
  | nil => simp [outgoing]
  | cons event events ih =>
    have hcons : outgoing (event :: events) = outgoing [event] ++ outgoing events := by
      simp only [outgoing, ← List.map_append, ← List.filter_append, List.singleton_append]
    rw [List.foldl_cons, ih, nativeOut_record, hcons, List.flatten_append, List.append_assoc]

theorem nativeOut_ofEvents (events : List Event) :
    (MatrixEvidence.ofEvents events).nativeOut = (outgoing events).flatten := by
  rw [MatrixEvidence.ofEvents, nativeOut_foldl]
  rfl

/-- Bytes that are decoded are the requests of a push, below its ceiling. -/
theorem nativeRequests_of_decodeAll {t : Texts} {bytes : List UInt8} {rs : List NativeRequest}
    {d : NativeRequestDecoder} (h : (NativeRequestDecoder.new .default).decodeAll bytes =
      .ok (rs, d))
    (hfinish : d.finish = .ok ()) :
    nativeRequests t bytes = .ok rs ↔ rs.length ≤ NativeLimits.default.maxBatchRequests := by
  constructor
  · intro hrequests
    rw [nativeRequests] at hrequests
    rcases hpush : (NativeRequestDecoder.new .default).push bytes with ⟨e | rs', d'⟩
    · rw [hpush] at hrequests
      cases hrequests
    · obtain ⟨hall, hle⟩ := NativeRequestDecoder.push_eq_ok.1 hpush
      cases h.symm.trans hall
      exact hle
  · intro hle
    rw [nativeRequests, NativeRequestDecoder.push_eq_ok.2 ⟨h, hle⟩]
    simp only [hfinish]
    rfl

/-- Payloads that decode one by one decode in a single push if their requests fit one. -/
theorem nativeRequests_iff (t : Texts) (events : List Event) (rss : List (List NativeRequest))
    (d : NativeRequestDecoder)
    (h : (NativeRequestDecoder.new .default).pushAll (outgoing events) = some (rss, d))
    (hfinish : d.finish = .ok ()) :
    nativeRequests t (MatrixEvidence.ofEvents events).nativeOut = .ok rss.flatten ↔
      rss.flatten.length ≤ NativeLimits.default.maxBatchRequests := by
  rw [nativeOut_ofEvents]
  exact nativeRequests_of_decodeAll (NativeRequestDecoder.decodeAll_of_pushAll h) hfinish

/-- The texts of values that are not printed. -/
def plainTexts : Texts := ⟨fun _ => "", fun _ => "", fun _ => "", id⟩

/-- A session on both channels, cut inside a request. -/
theorem nativeRequests_iff_cut :
    nativeRequests plainTexts (MatrixEvidence.ofEvents [("N>", [0xdf, 0xd1, 0xd7, 0, 0]),
      ("N<", [1]),
      ("N>", [0, 7, 0xdc]), ("M>", [0xdf, 0xd3])]).nativeOut =
        .ok [[.keepAlive 1], [.get 7], [.keepAlive 3]].flatten :=
  (nativeRequests_iff plainTexts _ _
    { toRequestParser :=
        { (NativeRequestDecoder.new .default).toRequestParser with selectedId := some 7 }
      channels := .on 3 } (by decide +kernel) rfl).2 (by decide)

/-- The decoder with channel 1 selected. -/
def selectedDecoder : NativeRequestDecoder :=
  { NativeRequestDecoder.new .default with channels := .on 1 }

/-- A session that selects channel 1 over and over. -/
def selections (n : ℕ) : List Event := List.replicate n ("N>", [0xdf, 0xd1])

theorem outgoing_selections (n : ℕ) :
    outgoing (selections n) = List.replicate n [0xdf, 0xd1] := by
  rw [outgoing, selections, List.filter_eq_self.2, List.map_replicate]
  intro e he
  rw [List.eq_of_mem_replicate he]
  rfl

theorem pushAll_selections (n : ℕ) :
    (NativeRequestDecoder.new .default).pushAll (outgoing (selections (n + 1))) =
      some (List.replicate (n + 1) [.keepAlive 1], selectedDecoder) := by
  have hfirst : (NativeRequestDecoder.new .default).push [0xdf, 0xd1] =
      (.ok [.keepAlive 1], selectedDecoder) := by
    decide +kernel
  have hnext : selectedDecoder.push [0xdf, 0xd1] = (.ok [.keepAlive 1], selectedDecoder) := by
    decide +kernel
  have hall : selectedDecoder.pushAll (List.replicate n [0xdf, 0xd1]) =
      some (List.replicate n [.keepAlive 1], selectedDecoder) := by
    induction n with
    | zero => rfl
    | succ n ih =>
      exact NativeRequestDecoder.pushAll_cons.2 ⟨_, _, _, hnext, ih, List.replicate_succ⟩
  rw [outgoing_selections]
  exact NativeRequestDecoder.pushAll_cons.2 ⟨_, _, _, hfirst, hall, List.replicate_succ⟩

/-- A session of 4097 selections is decoded event by event, and refused as a whole. -/
theorem not_promoted_selections :
    ¬ ∀ (t : Texts) (events : List Event) (rss : List (List NativeRequest))
      (d : NativeRequestDecoder),
      (NativeRequestDecoder.new .default).pushAll (outgoing events) = some (rss, d) →
      d.finish = .ok () →
      nativeRequests t (MatrixEvidence.ofEvents events).nativeOut = .ok rss.flatten := by
  intro h
  obtain ⟨n, hn⟩ : ∃ n, NativeLimits.default.maxBatchRequests = n := ⟨_, rfl⟩
  have hall := pushAll_selections n
  have hrequests := h plainTexts _ _ _ hall rfl
  rw [nativeOut_ofEvents] at hrequests
  have hle := (nativeRequests_of_decodeAll (NativeRequestDecoder.decodeAll_of_pushAll hall) rfl).1
    hrequests
  have hlength : (List.replicate (n + 1) [NativeRequest.keepAlive 1]).flatten.length = n + 1 := by
    rw [List.length_flatten, List.map_replicate, List.sum_replicate]
    simp
  omega

end Wingcapture

end LibWing
