import LibWing.Tools.Driven

/-!
# From three captures to a hardware matrix

A discovery, a session through the proxy and a capture of the meters are merged, in this
order.  What is left to be shown for a promotion is then up to the session and to who answered the
discovery.

* `Exercised.Complete`, `validateHardwareMatrix_eq_ok` : the checks of the matrix, as a proposition;
* `ofEvents_captures` : the evidence of the three captures;
* `mergeV2_promotable` : when the merged capture passes the checks.
-/

namespace LibWing

namespace Wingcapture

open Redact

variable {t : Texts} {headers : Headers}

/-! ### The checks -/

/-- What some requests exercise. -/
def exercised (requests : List NativeRequest) : Exercised :=
  requests.foldl Exercised.add ⟨false, false, false, ∅, ∅, false⟩

/-- Nothing is missing. -/
structure Exercised.Complete (x : Exercised) (meterTokens : Finset UInt32) : Prop where
  /-- A value was asked for. -/
  get : x.get = true
  /-- A definition was asked for. -/
  definition : x.definition = true
  /-- A value was written. -/
  set : x.set = true
  /-- Two meters were subscribed to. -/
  subscribe : 2 ≤ x.subscribe.card
  /-- Two were renewed. -/
  renew : 2 ≤ x.renew.card
  /-- Every subscription was renewed. -/
  renewed : x.subscribe ⊆ x.renew
  /-- Every meter was reported. -/
  reported : x.subscribe.image (· &&& 0xffff0000) ⊆ meterTokens
  /-- A keepalive was sent. -/
  keepalive : x.keepalive = true

theorem filterMap_missing {xs : List (Bool × String)} :
    (xs.filterMap fun x => if x.1 then some x.2 else none).isEmpty = true ↔
      ∀ x ∈ xs, x.1 = false := by
  rw [List.isEmpty_iff, List.filterMap_eq_nil_iff]
  refine forall₂_congr fun x _ => ?_
  cases x.1 <;> simp

theorem Exercised.missing_isEmpty {x : Exercised} {meterTokens : Finset UInt32} :
    ((x.missing meterTokens).filterMap fun x => if x.1 then some x.2 else none).isEmpty = true ↔
      x.Complete meterTokens := by
  rw [filterMap_missing]
  simp only [Exercised.missing, List.forall_mem_cons, Bool.not_eq_false', decide_eq_false_iff_not,
    decide_eq_true_eq, not_lt, List.not_mem_nil, false_implies, implies_true, and_true]
  constructor
  · rintro ⟨hget, hdefinition, hset, hsubscribe, hrenew, hrenewed, hreported, hkeepalive⟩
    exact ⟨hget, hdefinition, hset, hsubscribe, hrenew, hrenewed, hreported, hkeepalive⟩
  · intro h
    exact ⟨h.get, h.definition, h.set, h.subscribe, h.renew, h.renewed, h.reported, h.keepalive⟩

/-- What the evidence has to be for the checks to pass. -/
structure MatrixEvidence.Passes (t : Texts) (m : MatrixEvidence) : Prop where
  /-- A console was asked for. -/
  discoveryRequest : m.discoveryRequest = true
  /-- One has answered. -/
  discoveryReply : m.discoveryReply = true
  /-- The console has sent something. -/
  nativeIn : m.nativeIn ≠ []
  /-- There are two meter frames. -/
  meterFrames : 2 ≤ m.meterFrames
  /-- The session has ended. -/
  disconnect : m.disconnect = true
  /-- What the console has sent is framed. -/
  framing : responseFraming t m.nativeIn = .ok ()
  /-- The requests of the client show the rest. -/
  complete : ∃ requests, nativeRequests t m.nativeOut = .ok requests ∧
    (exercised requests).Complete m.meterTokens

theorem check_eq_ok {c : Prop} [Decidable c] {e : String} {f : Unit → Except String Unit} :
    (if c then throw e >>= f else f ()) = .ok () ↔ ¬ c ∧ f () = .ok () := by
  by_cases hc : c
  · simp [hc, throw, throwThe, MonadExceptOf.throw, bind, Except.bind]
  · simp [hc]

theorem lastCheck_eq_ok {c : Prop} [Decidable c] {e : String} :
    (if c then pure () else throw e : Except String Unit) = .ok () ↔ c := by
  by_cases hc : c
  · simp [hc, pure, Except.pure]
  · simp [hc, throw, throwThe, MonadExceptOf.throw]

/-- The checks pass if the metadata attest and the evidence is complete. -/
theorem validateHardwareMatrix_eq_ok {m : MatrixEvidence} :
    validateHardwareMatrix t headers m = .ok () ↔ requireAttested headers = .ok () ∧
      m.Passes t := by
  rw [validateHardwareMatrix, Except.bind_eq_ok]
  constructor
  · rintro ⟨u, hattested, h⟩
    -- The checks, in the order in which they are made.
    obtain ⟨hdiscovery, h⟩ := check_eq_ok.1 h
    obtain ⟨hnative, h⟩ := check_eq_ok.1 h
    obtain ⟨hframes, h⟩ := check_eq_ok.1 h
    obtain ⟨hdisconnect, h⟩ := check_eq_ok.1 h
    obtain ⟨u', hframing, h⟩ := Except.bind_eq_ok.1 h
    obtain ⟨requests, hrequests, h⟩ := Except.bind_eq_ok.1 h
    have hcomplete := Exercised.missing_isEmpty.1 (lastCheck_eq_ok.1 h)
    simp only [Bool.or_eq_true, Bool.not_eq_true', not_or, Bool.not_eq_false] at hdiscovery
    refine ⟨hattested, hdiscovery.1, hdiscovery.2, ?_, not_lt.1 hframes, by simpa using hdisconnect,
      hframing, requests, hrequests, hcomplete⟩
    exact fun hnil => hnative (List.isEmpty_iff.2 hnil)
  · rintro ⟨hattested, h⟩
    obtain ⟨requests, hrequests, hcomplete⟩ := h.complete
    refine ⟨(), hattested, check_eq_ok.2
      ⟨?_, check_eq_ok.2 ⟨?_, check_eq_ok.2 ⟨?_, check_eq_ok.2 ⟨?_,
      Except.bind_eq_ok.2 ⟨(), h.framing, Except.bind_eq_ok.2 ⟨requests, hrequests, ?_⟩⟩⟩⟩⟩⟩⟩
    · simp [h.discoveryRequest, h.discoveryReply]
    · exact fun hnil => h.nativeIn (List.isEmpty_iff.1 hnil)
    · exact not_lt.2 h.meterFrames
    · simp [h.disconnect]
    · exact lastCheck_eq_ok.2 (Exercised.missing_isEmpty.2 hcomplete)

/-! ### The evidence of the captures -/

/-- The payloads of some events on the incoming Native channel. -/
def incoming (events : List Event) : List UInt8 :=
  (events.filter fun e => e.1 = "N<").flatMap Prod.snd

/-- The source of the incoming direction has ended. -/
def hungUp (events : List Event) : Bool := events.any fun e => e.1 = "N<" && e.2.isEmpty

theorem foldl_record_native (m : MatrixEvidence) {events : List Event}
    (h : ∀ e ∈ events, e.1 = "N>" ∨ e.1 = "N<") :
    events.foldl MatrixEvidence.record m =
      { m with
        nativeIn := m.nativeIn ++ incoming events
        nativeOut := m.nativeOut ++ (outgoing events).flatten
        disconnect := m.disconnect || hungUp events } := by
  induction events generalizing m with
  | nil => simp [incoming, outgoing, hungUp]
  | cons e events ih =>
    obtain ⟨he, hrest⟩ := List.forall_mem_cons.1 h
    obtain ⟨channel, bytes⟩ := e
    rw [List.foldl_cons, ih _ hrest]
    rcases he with rfl | rfl
    · simp [MatrixEvidence.record, incoming, outgoing, hungUp]
    · simp [MatrixEvidence.record, incoming, outgoing, hungUp, Bool.or_assoc]

/-- The evidence of a discovery, a session through the proxy and a capture of the meters. -/
theorem ofEvents_captures {reply first second : List UInt8} {session : List Event} {port : UInt16}
    (hsession : ∀ e ∈ session, e.1 = "N>" ∨ e.1 = "N<")
    (hfirst : Driver.isReport 1 first = true) (hsecond : Driver.isReport 2 second = true) :
    MatrixEvidence.ofEvents ([("D>", Driver.question), ("D<", reply)] ++ session ++
      Driver.meterEvents port first second) =
      { discoveryRequest := true
        discoveryReply := (utf8 "WING,").isPrefixOf reply
        nativeIn := incoming session
        nativeOut := (outgoing session).flatten ++
          (outgoing (Driver.meterEvents port first second)).flatten
        meterFrames := 2
        meterTokens := {Driver.reportIdOf 1 0, Driver.reportIdOf 2 0}
        disconnect := hungUp session } := by
  have hquestion : (utf8 "WING?").isPrefixOf Driver.question = true := by decide
  rw [MatrixEvidence.ofEvents, List.foldl_append, List.foldl_append, foldl_record_native _ hsession]
  simp [MatrixEvidence.record, MatrixEvidence.default, Driver.meterEvents, Driver.reportEvents,
    Driver.meterToken_of_isReport hfirst, Driver.meterToken_of_isReport hsecond,
    outgoing, hquestion]

/-! ### The requests of a session and of the driver -/

section Requests

variable {port : UInt16} {rs : List NativeRequest}

/-- The reports of the meter driver. -/
def drivenReports (port : UInt16) : Finset UInt32 :=
  {Driver.reportIdOf 2 port, Driver.reportIdOf 1 port}

/-- Their tokens. -/
def drivenTokens : Finset UInt32 := {Driver.reportIdOf 1 0, Driver.reportIdOf 2 0}

theorem drivenReports_card (port : UInt16) : (drivenReports port).card = 2 := by
  refine Finset.card_pair fun h => ?_
  have hid := congrArg UInt32.toNat h
  rw [Driver.reportIdOf_toNat, Driver.reportIdOf_toNat] at hid
  simp at hid

theorem drivenReports_tokens (port : UInt16) :
    (drivenReports port).image (· &&& 0xffff0000) = drivenTokens := by
  rw [drivenReports, Finset.image_insert, Finset.image_singleton, Driver.reportIdOf_token,
    Driver.reportIdOf_token, drivenTokens, Finset.pair_comm]

theorem exercised_append_driven :
    exercised (rs ++ Driver.drivenRequests port) =
      { exercised rs with
        subscribe := drivenReports port ∪ (exercised rs).subscribe
        renew := drivenReports port ∪ (exercised rs).renew
        keepalive := true } := by
  rw [exercised, List.foldl_append, ← exercised]
  generalize exercised rs = x
  simp [Driver.drivenRequests, Driver.reportRequests, Exercised.add, drivenReports,
    Finset.insert_union]

/-- What a session has to exercise by itself. -/
structure SessionExercises (port : UInt16) (rs : List NativeRequest) : Prop where
  /-- A value is asked for. -/
  get : (exercised rs).get = true
  /-- A definition is asked for. -/
  definition : (exercised rs).definition = true
  /-- A value is written. -/
  set : (exercised rs).set = true
  /-- Reports that the session subscribes to are renewed, by it or by the driver, … -/
  renewed : (exercised rs).subscribe ⊆ drivenReports port ∪ (exercised rs).renew
  /-- … and have a token of the driver. -/
  reported : (exercised rs).subscribe.image (· &&& 0xffff0000) ⊆ drivenTokens

theorem complete_append_driven :
    (exercised (rs ++ Driver.drivenRequests port)).Complete drivenTokens ↔
      SessionExercises port rs := by
  rw [exercised_append_driven]
  -- The two reports of the driver are enough for the counts.
  have hcard (s : Finset UInt32) : 2 ≤ (drivenReports port ∪ s).card :=
    (drivenReports_card port).symm.trans_le (Finset.card_le_card Finset.subset_union_left)
  constructor
  · intro h
    refine ⟨h.get, h.definition, h.set, Finset.subset_union_right.trans h.renewed, ?_⟩
    exact (Finset.image_subset_image Finset.subset_union_right).trans h.reported
  · intro h
    refine ⟨h.get, h.definition, h.set, hcard _, hcard _, ?_, ?_, rfl⟩
    · exact Finset.union_subset Finset.subset_union_left h.renewed
    · rw [Finset.image_union, drivenReports_tokens]
      exact Finset.union_subset subset_rfl h.reported

theorem nativeRequests_eq_ok {bytes : List UInt8} :
    nativeRequests t bytes = .ok rs ↔
      ∃ d, (NativeRequestDecoder.new .default).push bytes = (.ok rs, d) ∧ d.finish = .ok () := by
  rw [nativeRequests]
  rcases hpush : (NativeRequestDecoder.new .default).push bytes with ⟨e | requests, d⟩
  · simp
  · cases hfinish : d.finish with
    | error e => simp [hfinish, Except.mapError, bind, Except.bind]
    | ok u => simp [hfinish, Except.mapError, bind, Except.bind, pure, Except.pure]

/-- A decoder that ends on a boundary is between two messages. -/
theorem finish_eq_ok {d : NativeRequestDecoder} :
    d.finish = .ok () ↔ d.channels.escaped = false ∧ d.audio = [] ∧ d.meter = [] := by
  rw [NativeRequestDecoder.finish, Except.bind_eq_ok]
  cases hescaped : d.channels.escaped <;>
    simp [ChannelDecoder.finish, hescaped, pure, Except.pure, throw, throwThe, MonadExceptOf.throw]

theorem nativeRequests_append_driven {bytes : List UInt8} (h : nativeRequests t bytes = .ok rs)
    (first second : List UInt8) {requests : List NativeRequest} :
    nativeRequests t (bytes ++ (outgoing (Driver.meterEvents port first second)).flatten) =
      .ok requests ↔ requests = rs ++ Driver.drivenRequests port ∧ rs.length + 13 ≤ 4096 := by
  obtain ⟨d, hpush, hfinish⟩ := nativeRequests_eq_ok.1 h
  obtain ⟨hescaped, haudio, hmeter⟩ := finish_eq_ok.1 hfinish
  have hall := (NativeRequestDecoder.push_eq_ok.1 hpush).1
  have hlimits : d.limits = .default := NativeRequestDecoder.decodeAll_limits hall
  -- The decoder is between two messages, so that it reads the driver as if it were new.
  obtain ⟨d', hdriven, hready⟩ := Driver.decodeAll_driven hescaped haudio hmeter hlimits port
  rw [← Driver.outgoing_meterEvents port first second] at hdriven
  have hboth := NativeRequestDecoder.decodeAll_append.2 ⟨_, _, _, hall, hdriven, rfl⟩
  have hlast : d'.finish = .ok () :=
    finish_eq_ok.2 ⟨by rw [hready.channels]; rfl, hready.audio, hready.meter⟩
  have hlength : (rs ++ Driver.drivenRequests port).length = rs.length + 13 := by
    simp [Driver.drivenRequests, Driver.reportRequests]
  have hfits : NativeLimits.default.maxBatchRequests = 4096 := rfl
  constructor
  · intro hrequests
    obtain ⟨d'', hpush', -⟩ := nativeRequests_eq_ok.1 hrequests
    obtain ⟨hall', hle⟩ := NativeRequestDecoder.push_eq_ok.1 hpush'
    cases hboth.symm.trans hall'
    exact ⟨rfl, hlength ▸ hle⟩
  · rintro ⟨rfl, hle⟩
    exact (nativeRequests_of_decodeAll hboth hlast).2 (by omega)

end Requests

/-! ### The merged capture -/

section Merged

variable {Addr Ip : Type} [DecidableEq Addr] [DecidableEq Ip] {target : Addr} {source : Ip}
  {timeout timeout' deadline : Time} {s : Proxy.State} {moves : List (Proxy.Direction × Proxy.Env)}
  {discovery native meters : List Char}

theorem native_of_recorder (h : Proxy.Noted s) :
    ∀ e ∈ s.recorder.events.map Prod.snd, e.1 = "N>" ∨ e.1 = "N<" := by
  intro e he
  obtain ⟨event, hmem, rfl⟩ := List.mem_map.1 he
  obtain ⟨⟨d, hd⟩, -⟩ := h.chunk event hmem
  cases d with
  | clientToConsole => exact .inl hd
  | consoleToClient => exact .inr hd

theorem incoming_recorder : incoming (s.recorder.events.map Prod.snd) =
    s.recorded .consoleToClient := by
  rw [incoming, Proxy.State.recorded, List.filter_map, List.flatMap_map]
  rfl

theorem outgoing_recorder (h : Proxy.Noted s) :
    (outgoing (s.recorder.events.map Prod.snd)).flatten = s.recorded .clientToConsole := by
  have hfilter : (s.recorder.events.map Prod.snd).filter (fun e => e.1 = "N>" ∨ e.1 = "M>") =
      (s.recorder.events.map Prod.snd).filter fun e => e.1 = "N>" := by
    refine List.filter_congr fun e he => ?_
    rcases native_of_recorder h e he with hn | hn <;> simp [hn]
  rw [outgoing, hfilter, Proxy.State.recorded, List.filter_map, ← List.flatMap_def,
    List.flatMap_map]
  rfl

theorem hungUp_recorder : hungUp (s.recorder.events.map Prod.snd) = true ↔
    ∃ event ∈ s.recorder.events, event.2 = ("N<", []) := by
  simp only [hungUp, List.any_map, List.any_eq_true, Function.comp_apply, Bool.and_eq_true,
    decide_eq_true_eq, List.isEmpty_iff, Prod.ext_iff]

theorem channels_of_map {channels : List String} {events : List CapturedEvent}
    (h : ∀ e ∈ events.map Prod.snd, e.1 ∈ channels) : ∀ event ∈ events, event.2.1 ∈ channels :=
  fun event he => h event.2 (List.mem_map_of_mem he)

/-- What is left to be shown by a session through the proxy, and by the answer to the discovery. -/
structure Shown (t : Texts) (reply : List UInt8) (s : Proxy.State) (port : UInt16)
    (rs : List NativeRequest) : Prop where
  /-- The reply is that of a console. -/
  greeted : utf8 "WING," <+: reply
  /-- The console has hung up, after it has sent something, all of it framed. -/
  closed : ∃ event ∈ s.recorder.events, event.2 = ("N<", [])
  /-- The console has sent something. -/
  answered : (s.legs .consoleToClient).taken ≠ []
  /-- What it has sent is framed. -/
  framed : responseFraming t (s.legs .consoleToClient).taken = .ok ()
  /-- One push of the decoder returns all requests. -/
  fits : rs.length + 13 ≤ 4096
  /-- The requests of the client show the rest. -/
  exercises : SessionExercises port rs

theorem passes_iff {reply first second : List UInt8} {port : UInt16} {rs : List NativeRequest}
    (hrun : Proxy.run t deadline moves = some s) (hnative : Proxy.outcome s = some (.ok native))
    (hfirst : Driver.isReport 1 first = true) (hsecond : Driver.isReport 2 second = true)
    (hrequests : nativeRequests t (s.legs .clientToConsole).taken = .ok rs) :
    (MatrixEvidence.ofEvents ([("D>", Driver.question), ("D<", reply)] ++
      s.recorder.events.map Prod.snd ++ Driver.meterEvents port first second)).Passes t ↔
      Shown t reply s port rs := by
  have hnoted := (Proxy.run_keeps hrun).2
  have htaken := Proxy.recorded_of_outcome hrun hnative
  -- What was noted is what the two ends have taken.
  rw [ofEvents_captures (native_of_recorder hnoted) hfirst hsecond, incoming_recorder,
    outgoing_recorder hnoted, htaken, htaken]
  constructor
  · intro h
    obtain ⟨requests, hboth, hcomplete⟩ := h.complete
    obtain ⟨rfl, hfits⟩ := (nativeRequests_append_driven hrequests first second).1 hboth
    exact ⟨List.isPrefixOf_iff_prefix.1 h.discoveryReply, hungUp_recorder.1 h.disconnect,
      h.nativeIn,
      h.framing, hfits, complete_append_driven.1 hcomplete⟩
  · intro h
    exact ⟨rfl, List.isPrefixOf_iff_prefix.2 h.greeted, h.answered, le_rfl,
      hungUp_recorder.2 h.closed, h.framed, _,
      (nativeRequests_append_driven hrequests first second).2 ⟨rfl, h.fits⟩,
      complete_append_driven.2 h.exercises⟩

/-- **The documented captures are enough for a hardware matrix**, up to the session.  Merged in
their order, a discovery, a session through the proxy and a capture of the meters pass the checks of
a promotion, with metadata that attest, if and only if a console has answered the discovery and the
session shows what neither of the two drivers can. -/
theorem mergeV2_promotable {rounds : List (Driver.Round Addr)} {sent : Except IoErrorKind Unit}
    {env : Driver.MeterEnv Ip} {rs : List NativeRequest} (destructive : Bool)
    (hdiscovery : Driver.captureDiscoverySession t target timeout sent rounds = .ok discovery)
    (hrun : Proxy.run t deadline moves = some s) (hnative : Proxy.outcome s = some (.ok native))
    (hmeters : Driver.captureMeterSession t source timeout' env = .ok meters)
    (hrequests : nativeRequests t (s.legs .clientToConsole).taken = .ok rs) :
    ∃ capture contract reply port,
      mergeV2 t [discovery, native, meters] destructive = .ok capture ∧
      contractEvents t capture = .ok contract ∧
      Driver.Heard rounds target Driver.discoveryBytes (fun _ => true) reply ∧ env.port = .ok port ∧
      ∀ headers, validateHardwareMatrix t headers (MatrixEvidence.ofEvents contract) = .ok () ↔
        requireAttested headers = .ok () ∧ Shown t reply s port rs := by
  obtain ⟨reply, asked, hreply, hasked, haskedEvents⟩ :=
    Driver.captureDiscoverySession_eq_ok hdiscovery
  obtain ⟨port, first, second, driven, hport, hfirst, hsecond, hdriven, hdrivenEvents⟩ :=
    Driver.captureMeterSession_eq_ok hmeters
  have hnoted := (Proxy.run_keeps hrun).2
  have hsession : Accepted t native s.recorder.events := by
    obtain ⟨-, rfl⟩ := Proxy.outcome_eq_ok.1 hnative
    exact Proxy.accepted_intoV2 hrun
  -- The three captures use the channels that a merge allows.
  have hchannels : ∀ events ∈ [asked, s.recorder.events, driven], ∀ event ∈ events,
      event.2.1 ∈ mergeChannels := by
    simp only [List.forall_mem_cons, List.not_mem_nil, false_implies, implies_true, and_true]
    refine ⟨channels_of_map (haskedEvents ▸ by simp [mergeChannels]), channels_of_map ?_,
      channels_of_map (hdrivenEvents ▸
      by simp [Driver.meterEvents, Driver.reportEvents, mergeChannels])⟩
    intro e he
    rcases native_of_recorder hnoted e he with hn | hn <;> simp [hn, mergeChannels]
  obtain ⟨events, hevents, hsnd, hsorted, hvalid⟩ := @mergeEvents_spec t 0 _ _
    (.cons hasked (.cons hsession (.cons hdriven .nil))) hchannels (by decide)
  -- The merged events are those of the three, in their order.
  have hcontract : events.map Prod.snd = [("D>", Driver.question), ("D<", reply)] ++
      s.recorder.events.map Prod.snd ++ Driver.meterEvents port first second := by
    rw [hsnd]
    simp [haskedEvents, hdrivenEvents]
  have hlength : events.length = s.recorder.events.length + 9 := by
    rw [← List.length_map (f := Prod.snd), hcontract]
    simp [Driver.meterEvents, Driver.reportEvents]
  -- The proxy has a limit of events, so that the ordinals fit.
  have hfits : events.length < 2 ^ 64 := by
    have hle := hnoted.length
    rw [Proxy.maxEvents] at hle
    omega
  obtain ⟨hread, summary, hparse, -⟩ := accepted_buildMergedMatrix t destructive
    (fun event he => (hvalid event he).2.1) hsorted hfits
  refine ⟨buildMergedMatrix events destructive, events.map Prod.snd, reply, port, ?_,
    contractEvents_eq_ok hparse hread, hreply, hport, fun headers => ?_⟩
  · have hne : events ≠ [] := List.ne_nil_of_length_pos (by omega)
    rw [mergeV2, hevents]
    simp only [bind, Except.bind, rejectIf, if_neg hne, hparse]
    rfl
  · rw [validateHardwareMatrix_eq_ok, hcontract,
      passes_iff hrun hnative hfirst.accepted hsecond.accepted hrequests]

/-- A client gets a value and its definition and sets it; the console answers and hangs up. -/
def exercise : List (Proxy.Direction × Proxy.Env) :=
  List.replicate 3 (.clientToConsole, .quiet) ++
    (.clientToConsole, { Proxy.Env.quiet with
      read := .ok [0xdf, 0xd1, 0xd7, 0, 0, 0, 7, 0xdc, 0xdd, 5] }) ::
    List.replicate 2 (.clientToConsole, .quiet) ++ List.replicate 3 (.consoleToClient, .quiet) ++
    (.consoleToClient, { Proxy.Env.quiet with read := .ok [0xdf, 0xd1, 5] }) ::
    List.replicate 7 (.consoleToClient, .quiet) ++ List.replicate 3 (.clientToConsole, .quiet)

/-- The requests of this client. -/
def exerciseRequests : List NativeRequest :=
  [.keepAlive 1, .get 7, .definition 7, .set 7 (.integer 5)]

theorem mergeV2_promotable_exercise :
    ∃ discovery s native meters capture contract reply port,
      Proxy.run plainTexts 1000000 exercise = some s ∧
      mergeV2 plainTexts [discovery, native, meters] false = .ok capture ∧
      ∀ headers, validateHardwareMatrix plainTexts headers (MatrixEvidence.ofEvents contract) =
        .ok () ↔
        requireAttested headers = .ok () ∧ Shown plainTexts reply s port exerciseRequests := by
  have hdiscovery : (Driver.captureDiscoverySession plainTexts (2222 : ℕ) 1000000 (.ok ())
      [.bring 2222 (utf8 "WING,192.0.2.1")]).toOption.isSome = true := by
    decide +kernel
  have hmeters : (Driver.captureMeterSession plainTexts 7 1000000
      Driver.twoReports).toOption.isSome = true := by
    decide +kernel
  have hproxy : (Proxy.run plainTexts 1000000 exercise).map (fun s =>
      ((s.legs .clientToConsole).taken, (Proxy.outcome s).map fun r => r.toOption.isSome)) =
        some ([0xdf, 0xd1, 0xd7, 0, 0, 0, 7, 0xdc, 0xdd, 5], some true) := by
    decide +kernel
  obtain ⟨s, hrun, hs⟩ := Option.map_eq_some_iff.1 hproxy
  obtain ⟨htaken, hok⟩ := Prod.mk.inj hs
  obtain ⟨result, hresult, hsome⟩ := Option.map_eq_some_iff.1 hok
  obtain ⟨discovery, hdiscovery⟩ := Except.exists_of_isSome hdiscovery
  obtain ⟨meters, hmeters⟩ := Except.exists_of_isSome hmeters
  obtain ⟨native, rfl⟩ := Except.exists_of_isSome hsome
  have hrequests : nativeRequests plainTexts (s.legs .clientToConsole).taken =
      .ok exerciseRequests := by
    rw [htaken]
    decide +kernel
  obtain ⟨capture, contract, reply, port, hmerge, -, -, -, hpasses⟩ :=
    mergeV2_promotable false hdiscovery hrun hresult hmeters hrequests
  exact ⟨discovery, s, native, meters, capture, contract, reply, port, hrun, hmerge, hpasses⟩

end Merged

end Wingcapture

end LibWing
