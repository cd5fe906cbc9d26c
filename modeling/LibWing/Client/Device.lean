import LibWing.Client.Agreement
import LibWing.Client.Remote
import LibWing.Console.RoundTrip

/-!
# A device at the other end of the wire

What a client program writes is cut into fragments and decoded at the other end, and what the other
end answers is encoded and cut again.  Between the answers come end markers and the values of other
nodes, and between the requests keepalives.

* `Device`, `Device.perform` : what answers at the other end, and a program on the device itself;
* `Device.Answers`, `Device.Sends` : what it may send to a client, and what of it is on the wire;
* `remaining_of_sends` : a client hears what was sent;
* `runProgram_remote` : a program over the wire has the results of the program on the device.
-/

namespace LibWing

open Stateful Dialogue

/-- What answers at the other end.  It has a value and a definition of each node, and any request
may change them, but for a keepalive. -/
structure Device (σ : Type) where
  /-- What a request does to it. -/
  react : NativeRequest → σ → σ
  /-- The value of a node. -/
  value : σ → Int32 → NativeValue
  /-- The definition of a node. -/
  definition : σ → Int32 → WingNodeDef
  /-- A keepalive does nothing to it. -/
  react_keepAlive : ∀ channel s, react (.keepAlive channel) s = s
  /-- A definition names its own node. -/
  definition_id : ∀ s id, (definition s id).id = id

namespace Device

variable {σ : Type} (device : Device σ)

/-- The answer to a request. -/
def answer (s : σ) : NativeRequest → Option NativeResponse
  | .get id => some (.nodeData id (device.value s id))
  | .definition id => some (.nodeDef (device.definition s id))
  | _ => none

/-- The device, as its clients hear it. -/
def object : Object σ NativeRequest WingResponse where
  react := device.react
  reply request s := (device.answer s request).map NativeResponse.received

/-- A program on the device itself. -/
def perform (s : σ) (commands : List Command) : List WingResponse :=
  device.object.results s (commands.flatMap fun command => command.op.requests)

/-- What a device may send that reads the requests: its answers in order, and before each of them
anything that does not answer it. -/
def Answers (s : σ) (requests : List NativeRequest) (sent : List NativeResponse) : Prop :=
  device.object.Answers Matches s requests (sent.map NativeResponse.received)

/-- What was sent, in batches that were encoded one after the other, is what the transport
brings. -/
def Sends (sent : List NativeResponse) (rsock : List Poll) : Prop :=
  ∃ batches wires, sent = batches.flatten ∧ (∀ r ∈ sent, r.Readable) ∧
    List.Forall₂ (fun batch wire => encodeResponses batch = .ok wire) batches wires ∧
    rawSymbols rsock = wires.flatten.map .ok

variable {device}

theorem canonical_id (d : WingNodeDef) (raw : List UInt8) : (d.canonical raw).id = d.id := by
  unfold WingNodeDef.canonical
  split <;> rfl

/-- What is answered is waited for, and answers the request. -/
theorem reply_matches {r : NativeRequest} {s : σ} {a : WingResponse}
    (h : device.object.reply r s = some a) : Expects r ∧ Matches r a := by
  obtain ⟨response, hanswer, rfl⟩ := Option.map_eq_some_iff.1 h
  cases r <;> cases hanswer
  · exact ⟨True.intro, rfl⟩
  · exact ⟨True.intro, (canonical_id _ _).trans (device.definition_id s _)⟩

theorem reply_none {r : NativeRequest} {s : σ} (h : device.object.reply r s = none) :
    ¬ Expects r := by
  cases r <;> first | exact fun he => he | cases h

theorem results_requests {ops : List ClientOp} {commands : List Command} (s : σ)
    (h : ops.filter (· ≠ .keepAlive) = commands.map Command.op) :
    device.object.results s (ops.flatMap ClientOp.requests) = device.perform s commands := by
  induction ops generalizing s commands with
  | nil =>
    rw [List.map_eq_nil_iff.1 h.symm]
    rfl
  | cons op ops ih =>
    by_cases hop : op = .keepAlive
    · subst hop
      -- A keepalive is not answered, and leaves the device as it is.
      have hs : device.object.after s (ClientOp.requests .keepAlive) = s :=
        device.react_keepAlive 1 s
      rw [List.flatMap_cons, Object.results_append, hs]
      exact ih s h
    · rw [List.filter_cons_of_pos (by simpa using hop)] at h
      cases commands with
      | nil => cases h
      | cons command commands =>
        obtain ⟨rfl, hrest⟩ := List.cons.inj h
        rw [List.flatMap_cons, Object.results_append, ih _ hrest, perform, perform,
          List.flatMap_cons,
          Object.results_append]

end Device

/-! ### What is heard -/

theorem encodeTokens_append {rs rs' : List NativeResponse} {tokens tokens' : List UInt8}
    (h : encodeTokens rs = .ok tokens) (h' : encodeTokens rs' = .ok tokens') :
    encodeTokens (rs ++ rs') = .ok (tokens ++ tokens') := by
  induction rs generalizing tokens with
  | nil =>
    cases h
    exact h'
  | cons r rs ih =>
    obtain ⟨token, ht, h⟩ := Except.bind_eq_ok.1 h
    obtain ⟨rest, hr, h⟩ := Except.bind_eq_ok.1 h
    cases Except.pure_eq_ok.1 h
    rw [List.append_assoc]
    exact Except.bind_eq_ok.2 ⟨token, ht, Except.bind_eq_ok.2 ⟨_, ih hr, rfl⟩⟩

theorem responses_tokens {rs : List NativeResponse} (hr : ∀ r ∈ rs, r.Readable)
    {tokens : List UInt8}
    (h : encodeTokens rs = .ok tokens) (id : Int32) :
    Stream.responses ⟨tokens.map audioSymbol, id, 0⟩ = rs.map NativeResponse.received := by
  induction rs generalizing tokens id with
  | nil =>
    cases h
    rfl
  | cons r rs ih =>
    obtain ⟨token, ht, h⟩ := Except.bind_eq_ok.1 h
    obtain ⟨rest, hrest, h⟩ := Except.bind_eq_ok.1 h
    cases Except.pure_eq_ok.1 h
    obtain ⟨id', hread⟩ := read_response (hr r List.mem_cons_self) ht (rest.map audioSymbol) id
    have hok := eq_ok_of_outcome (congrArg Prod.fst hread)
    rw [hread] at hok
    rw [List.map_append, Stream.responses_of_read hok, List.map_cons,
      ih (fun r' h' => hr r' (List.mem_cons_of_mem _ h')) hrest id']

theorem decodeSymbols_frame_append (tokens : List UInt8) (rest : List (Except Error UInt8)) :
    decodeSymbols (.on audioEngineChannel)
      (([escape, channelBase + 1] ++ escapeBytes tokens).map .ok ++ rest) =
        tokens.map audioSymbol ++ decodeSymbols (.on audioEngineChannel) rest := by
  have hselect := ChannelDecoder.push_select 1 (by decide)
    (show (ChannelDecoder.on audioEngineChannel).escaped = false from rfl)
  have hpush := ChannelDecoder.push_append_eq_ok.2
    ⟨_, _, _, hselect, ChannelDecoder.push_escapeBytes 1 tokens, rfl⟩
  rw [decodeSymbols_push_append hpush, ← audioBytes_data]
  rfl

theorem decodeSymbols_frames {batches : List (List NativeResponse)} {wires : List (List UInt8)}
    (h : List.Forall₂ (fun batch wire => encodeResponses batch = .ok wire) batches wires) :
    ∃ tokens, encodeTokens batches.flatten = .ok tokens ∧
      decodeSymbols (.on audioEngineChannel) (wires.flatten.map .ok) = tokens.map audioSymbol := by
  induction h with
  | nil => exact ⟨[], rfl, rfl⟩
  | cons hwire _ ih =>
    obtain ⟨tokens, htokens, rfl⟩ := encodeResponses_eq_ok hwire
    obtain ⟨rest, hrest, hsymbols⟩ := ih
    refine ⟨tokens ++ rest, encodeTokens_append htokens hrest, ?_⟩
    rw [List.flatten_cons, List.map_append, decodeSymbols_frame_append, hsymbols, List.map_append]

/-- A client hears what was sent, however the transport cuts it. -/
theorem remaining_of_sends {sent : List NativeResponse} {rsock : List Poll}
    (h : Device.Sends sent rsock) (now : Time) :
    (Console.new now rsock).remaining = sent.map NativeResponse.received := by
  obtain ⟨batches, wires, rfl, hr, hwires, hsock⟩ := h
  obtain ⟨tokens, htokens, hsymbols⟩ := decodeSymbols_frames hwires
  change (Console.new now rsock).stream.responses = _
  rw [Console.stream_new, hsock, hsymbols, responses_tokens hr htokens]

/-! ### Over the wire -/

variable {w : World} {now timeout : Time} {rsock : List Poll} {commands : List Command}
  {responses : List WingResponse} {c' : Console}

/-- **A program over the wire is a program on the device.**  Whenever a program of sets, toggles and
gets of nodes returns, what its session has written is accepted by a server in every fragmentation,
and if the stream it has read, however it was cut, is what a device sends that reads these requests,
then its results are those of the program on the device itself: every get is answered for the state
that the commands before it have led to. -/
theorem runProgram_remote (hnodes : ∀ command ∈ commands, command.OfNode)
    (hrun : outcome (runProgram w timeout commands) (Console.new now rsock) = (.ok responses, c'))
    {fragments : List (List UInt8)} (hflat : fragments.flatten = handshake ++ c'.wsock.flatten)
    (hwithin : NativeRequestDecoder.FragmentsWithin 4096 (.new .default) fragments) :
    ∃ rss d', (NativeRequestDecoder.new .default).pushAll fragments = some (rss, d') ∧
      ∀ {σ : Type} (device : Device σ) (s : σ) (sent : List NativeResponse),
        device.Answers s rss.flatten sent → Device.Sends sent rsock →
          responses = device.perform s commands := by
  obtain ⟨ops, hperformed⟩ : ∃ ops, Performed commands (Console.new now rsock) responses
      c' ops := by
    rcases (runProgram_spec (c := Console.new now rsock) ⟨rfl, rfl⟩ hnodes).outcome rfl with
      ⟨rs, c₁, ho, hdone⟩ | ⟨e, c₁, ho, -⟩
    · cases ho.symm.trans hrun
      exact hdone
    · cases ho.symm.trans hrun
  obtain ⟨sent, hsent, hbytes⟩ := hperformed.wrote
  have hwsock : c'.wsock = sent := hsent
  -- The server reads the handshake and the operations.
  obtain ⟨d₀, h₀, hd₀⟩ := NativeRequestDecoder.decodeAll_handshake
  obtain ⟨bytes, d₁, hbytes', h₁, -⟩ :=
    NativeRequestDecoder.decodeAll_clientBytes hd₀ hperformed.admissible
  cases hbytes.symm.trans hbytes'
  have hall : (NativeRequestDecoder.new .default).decodeAll fragments.flatten =
      .ok (.keepAlive 1 :: ops.flatMap ClientOp.requests, d₁) := by
    rw [hflat, hwsock]
    exact NativeRequestDecoder.decodeAll_append.2 ⟨_, d₀, _, h₀, h₁, rfl⟩
  obtain ⟨rss, hpush, hrss⟩ := NativeRequestDecoder.pushAll_of_within hall hwithin
  refine ⟨rss, d₁, hpush, fun device s answers hanswers hsends => ?_⟩
  rw [hrss] at hanswers
  -- The keepalive of the handshake is not answered.
  have htakes : Dialogue.Takes Matches Expects (.keepAlive 1 :: ops.flatMap ClientOp.requests)
      (answers.map NativeResponse.received) responses := by
    rw [← remaining_of_sends hsends now]
    exact .silent (fun h => h) hperformed.takes
  rw [htakes.eq_results (fun _ _ _ => Device.reply_matches) (fun _ _ => Device.reply_none) hanswers]
  change device.object.results (device.react (.keepAlive 1) s) (ops.flatMap ClientOp.requests) = _
  rw [device.react_keepAlive, Device.results_requests s hperformed.order]

/-- A device that holds what was set. -/
def memory : Device (Int32 → NativeValue) where
  react request s := match request with
    | .set id value => Function.update s id value
    | _ => s
  value s id := s id
  definition _ id :=
    { id, parentId := 0, index := 0, name := "", longName := "", nodeType := .integer, unit := .none
      readOnly := false, minFloat := none, maxFloat := none, steps := none, minInt := none
      maxInt := none, maxStringLen := none, stringEnum := none, floatEnum := none, raw := [] }
  react_keepAlive _ _ := rfl
  definition_id _ _ := rfl

/-- A value is set and got.  The value of another node comes in between, and the transport cuts the
answer. -/
theorem runProgram_remote_setGet :
    ∃ responses c', outcome (runProgram .steady 99 [.setInt 7 5, .getNodeData 7])
        (Console.new 0 [.read (.ok [0xdf, 0xd1, 0xd7, 0, 0, 0, 8, 1, 0xd7, 0]),
          .read (.error .wouldBlock), .read (.ok [0, 0, 7, 5, 0xde])]) = (.ok responses, c') ∧
      responses = memory.perform (fun _ => .integer 0) [.setInt 7 5, .getNodeData 7] := by
  let rsock : List Poll := [.read (.ok [0xdf, 0xd1, 0xd7, 0, 0, 0, 8, 1, 0xd7, 0]),
    .read (.error .wouldBlock), .read (.ok [0, 0, 7, 5, 0xde])]
  let sent : List NativeResponse :=
    [.nodeData 8 (.integer 1), .nodeData 7 (.integer 5), .requestEnd]
  let bytes : List UInt8 := [0xdf, 0xd1, 0xd7, 0, 0, 0, 7, 5, 0xd7, 0, 0, 0, 7, 0xdc]
  have hreturns : (outcome (runProgram .steady 99 [.setInt 7 5, .getNodeData 7])
      (Console.new 0 rsock)).1.toOption.isSome = true := by decide +kernel
  have hwsock : (outcome (runProgram .steady 99 [.setInt 7 5, .getNodeData 7])
      (Console.new 0 rsock)).2.wsock = [[0xd7, 0, 0, 0, 7, 5], [0xd7, 0, 0, 0, 7, 0xdc]] := by
    decide +kernel
  have hpush : ((NativeRequestDecoder.new .default).pushAll [bytes]).map Prod.fst =
      some [[.keepAlive 1, .set 7 (.integer 5), .get 7]] := by decide +kernel
  have hwithin : NativeRequestDecoder.FragmentsWithin 4096 (.new .default) [bytes] := by
    have hread : ((NativeRequestDecoder.new .default).decodeAll [bytes].flatten).toOption.map
        (fun r => r.1.length) = some 3 := by decide +kernel
    cases hall : (NativeRequestDecoder.new .default).decodeAll [bytes].flatten with
    | error e =>
      rw [hall] at hread
      cases hread
    | ok r =>
      rw [hall] at hread
      exact NativeRequestDecoder.fragmentsWithin_of_le hall
        ((Option.some.inj hread).le.trans (by decide))
  have hsends : Device.Sends sent rsock := by
    refine ⟨[sent], [[0xdf, 0xd1, 0xd7, 0, 0, 0, 8, 1, 0xd7, 0, 0, 0, 7, 5, 0xde]], rfl, ?_,
      .cons (by decide +kernel) .nil, by decide +kernel⟩
    intro r hr
    simp only [sent, List.mem_cons, List.not_mem_nil, or_false] at hr
    rcases hr with rfl | rfl | rfl <;> exact True.intro
  have hanswers : memory.Answers (fun _ => .integer 0)
      [.keepAlive 1, .set 7 (.integer 5), .get 7] sent := by
    have hget : memory.object.Answers Matches (Function.update (fun _ => .integer 0) 7 (.integer 5))
        [.get 7] ([.nodeData 8 (.withI32 1)] ++ .nodeData 7 (.withI32 5) :: [.requestEnd]) := by
      -- The value of node 8 is no match for node 7.
      refine .replied rfl ?_ (.ended _ _)
      intro x hx
      rw [List.mem_singleton.1 hx]
      exact fun h : (8 : Int32) = 7 => absurd h (by decide)
    exact .silent rfl (.silent rfl hget)
  rcases hrun : outcome (runProgram .steady 99 [.setInt 7 5, .getNodeData 7]) (Console.new 0 rsock)
    with ⟨_ | responses, c'⟩
  · rw [hrun] at hreturns
    cases hreturns
  · rw [hrun] at hwsock
    have hflat : [bytes].flatten = handshake ++ c'.wsock.flatten := by
      rw [hwsock]
      rfl
    obtain ⟨rss, d', hrss, hremote⟩ := runProgram_remote (by
      intro command hcommand
      simp only [List.mem_cons, List.not_mem_nil, or_false] at hcommand
      rcases hcommand with rfl | rfl
      · exact True.intro
      · exact (by decide : (7 : Int32) ≠ 0)) hrun hflat hwithin
    rw [hrss] at hpush
    cases Option.some.inj hpush
    exact ⟨responses, c', rfl, hremote memory _ sent hanswers hsends⟩

end LibWing
