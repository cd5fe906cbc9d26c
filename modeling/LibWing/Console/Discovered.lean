import LibWing.Console.Discovery

/-!
# What is discovered

Every host may send anything, under any name.

* `Scanned`, `scanOn_scanned` : the consoles of a scan are the first answers of each address and
  serial number, in the order in which they came, and no host has a say in what is listed of another
  one;
* `probeLoop_eq_some` : a probe hears its own host only;
* `connect_known` : a console is found by an answer of its own, and so is its firmware.
-/

namespace LibWing

namespace Discovery

open KeepFirst

variable {Ip : Type} {display : Ip → String} {stopOnFirst : Bool} {deadline : Time}
  {tick : Tick Ip} {ticks before : List (Tick Ip)} {s s' : Scan} {info : DiscoveryInfo} {n : ℕ}

/-- The host a datagram comes from. -/
def Tick.source (tick : Tick Ip) : Option Ip := tick.received.toOption.map Prod.snd

/-- The answer in a datagram. -/
def Tick.answer (display : Ip → String) (tick : Tick Ip) : Option DiscoveryInfo :=
  tick.received.toOption.bind fun d => fromDatagram display (d.1.take bufferBytes) d.2

/-- The answers that are heard in some rounds. -/
def answers (display : Ip → String) (ticks : List (Tick Ip)) : List DiscoveryInfo :=
  ticks.filterMap (Tick.answer display)

theorem answer_ip (h : tick.answer display = some info) :
    ∃ payload host, tick.received = .ok (payload, host) ∧ info.ip = display host := by
  obtain ⟨⟨payload, host⟩, hreceived, hinfo⟩ := Option.bind_eq_some_iff.1 h
  obtain ⟨parsed, -, rfl⟩ := Option.map_eq_some_iff.1 hinfo
  refine ⟨payload, host, ?_, rfl⟩
  cases hr : tick.received with
  | error kind =>
    rw [hr] at hreceived
    cases hreceived
  | ok d =>
    rw [hr] at hreceived
    cases hreceived
    rfl

/-! ### The scan -/

section Loop

/-- A scan behind some rounds. -/
structure Heard (display : Ip → String) (deadline : Time) (before : List (Tick Ip)) (s : Scan) :
    Prop where
  /-- The deadline has not passed before any round. -/
  awake : ∀ tick ∈ before, tick.now < deadline
  /-- The first answers of each console, in the order in which they came. -/
  results : s.results = keepFirst identity (answers display before)
  /-- The datagrams that were received are counted. -/
  packets : s.packets = (before.filterMap Tick.source).length
  /-- In each round something is heard or not. -/
  rounds : s.attempts + s.packets = before.length
  /-- The question is asked once, and again whenever nothing is heard. -/
  sent : s.sent = s.attempts + 1
  /-- It has not failed too often. -/
  fewAttempts : s.attempts ≤ maxAttempts
  /-- It has not received too much. -/
  fewPackets : s.packets ≤ maxPackets
  /-- One more round is allowed. -/
  bound : s.attempts + s.packets < maxAttempts + maxPackets

theorem heard_nil : Heard display deadline [] ⟨[], 0, 0, 1⟩ := by
  constructor <;> simp [answers, maxAttempts, maxPackets]

/-- Nothing is heard. -/
theorem Heard.failed (h : Heard display deadline before s) (hattempts : s.attempts < maxAttempts)
    (hpackets : s.packets < maxPackets) (hnow : tick.now < deadline) {kind : IoErrorKind}
    (hreceived : tick.received = .error kind) :
    Heard display deadline (before ++ [tick])
      { s with attempts := s.attempts + 1, sent := s.sent + 1 } where
  awake := by
    intro t ht
    rcases List.mem_append.1 ht with ht | ht
    · exact h.awake t ht
    · rwa [List.mem_singleton.1 ht]
  results := by
    have hanswer : tick.answer display = none := by simp [Tick.answer, hreceived, Except.toOption]
    simp [answers, List.filterMap_append, hanswer, h.results]
  packets := by
    have hsource : tick.source = none := by simp [Tick.source, hreceived, Except.toOption]
    simp [List.filterMap_append, hsource, h.packets]
  rounds := by
    have hrounds := h.rounds
    simp only [List.length_append, List.length_singleton]
    omega
  sent := congrArg (· + 1) h.sent
  fewAttempts := hattempts
  fewPackets := hpackets.le
  bound := by
    have hone : s.attempts + 1 ≤ maxAttempts := hattempts
    exact Nat.add_lt_add_of_le_of_lt hone hpackets

/-- A datagram is heard. -/
theorem Heard.received (h : Heard display deadline before s) (hattempts : s.attempts < maxAttempts)
    (hpackets : s.packets < maxPackets) (hnow : tick.now < deadline)
    {payload : List UInt8} {host : Ip}
    (hreceived : tick.received = .ok (payload, host)) {results : List DiscoveryInfo}
    (hresults : results = (tick.answer display).elim s.results (pushNew identity s.results)) :
    Heard display deadline (before ++ [tick]) { s with results, packets := s.packets + 1 } where
  awake := by
    intro t ht
    rcases List.mem_append.1 ht with ht | ht
    · exact h.awake t ht
    · rwa [List.mem_singleton.1 ht]
  results := by
    rw [hresults, h.results]
    cases hanswer : tick.answer display with
    | none => simp [answers, List.filterMap_append, hanswer]
    | some info => simp [answers, List.filterMap_append, hanswer, keepFirst_concat]
  packets := by
    have hsource : tick.source = some host := by simp [Tick.source, hreceived, Except.toOption]
    simp [List.filterMap_append, hsource, h.packets]
  rounds := by
    have hrounds := h.rounds
    simp only [List.length_append, List.length_singleton]
    omega
  sent := h.sent
  fewAttempts := hattempts.le
  fewPackets := hpackets
  bound := by
    have hone : s.packets + 1 ≤ maxPackets := hpackets
    exact Nat.add_lt_add_of_lt_of_le hattempts hone

theorem scanLoop_round (h : Heard display deadline before s)
    (hfirst : stopOnFirst = true → s.results = []) (hattempts : s.attempts < maxAttempts)
    (hpackets : s.packets < maxPackets) (hnow : tick.now < deadline) :
    ∃ s₁, Heard display deadline (before ++ [tick]) s₁ ∧
      ((stopOnFirst = true → s₁.results = []) ∧
          scanLoop display stopOnFirst deadline (tick :: ticks) s =
            scanLoop display stopOnFirst deadline ticks s₁ ∨
        stopOnFirst = true ∧ s₁.results.length = 1 ∧
          scanLoop display stopOnFirst deadline (tick :: ticks) s = s₁) := by
  obtain ⟨x, hx⟩ : ∃ x, x = scanLoop display stopOnFirst deadline (tick :: ticks) s := ⟨_, rfl⟩
  rw [← hx]
  rw [scanLoop, if_pos ⟨hattempts, hpackets, hnow⟩] at hx
  cases hreceived : tick.received with
  | error kind =>
    rw [hreceived] at hx
    -- Nothing came, and the question is asked again.
    exact ⟨_, h.failed hattempts hpackets hnow hreceived, Or.inl ⟨hfirst, hx⟩⟩
  | ok d =>
    obtain ⟨payload, host⟩ := d
    rw [hreceived] at hx
    have hanswer : tick.answer display = fromDatagram display (payload.take bufferBytes) host := by
      simp [Tick.answer, hreceived, Except.toOption]
    cases hinfo : fromDatagram display (payload.take bufferBytes) host with
    | none =>
      -- The datagram is no answer, but it counts.
      simp only [hinfo] at hx
      refine ⟨_, h.received hattempts hpackets hnow hreceived ?_, Or.inl ⟨hfirst, hx⟩⟩
      rw [hanswer, hinfo]
      rfl
    | some info =>
      -- A console is known by its address and its serial number.
      have hnew : (s.results.any fun seen => seen.ip == info.ip && seen.serial == info.serial) =
          s.results.any fun seen => identity seen = identity info := by
        simp [identity, Bool.beq_eq_decide_eq]
      have hresults : (tick.answer display).elim s.results (pushNew identity s.results) =
          pushNew identity s.results info := by
        rw [hanswer, hinfo]
        rfl
      simp only [hinfo, hnew] at hx
      cases hseen : s.results.any fun seen => identity seen = identity info with
      | true =>
        rw [hseen, if_pos rfl] at hx
        refine ⟨_, h.received hattempts hpackets hnow hreceived ?_, Or.inl ⟨hfirst, hx⟩⟩
        rw [hresults, pushNew, hseen, if_pos rfl]
      | false =>
        rw [hseen, if_neg Bool.false_ne_true] at hx
        have hheard : Heard display deadline (before ++ [tick])
            { s with results := s.results ++ [info], packets := s.packets + 1 } :=
          h.received hattempts hpackets hnow hreceived
            (by rw [hresults, pushNew, hseen, if_neg Bool.false_ne_true])
        refine ⟨_, hheard, ?_⟩
        cases hstop : stopOnFirst with
        | false =>
          rw [hstop, if_neg Bool.false_ne_true] at hx
          exact Or.inl ⟨fun hstop => absurd hstop Bool.false_ne_true, hx⟩
        | true =>
          rw [hstop, if_pos rfl] at hx
          exact Or.inr ⟨rfl, by simp [hfirst hstop], hx⟩

/-- Why a scan stops. -/
def Stops (stopOnFirst : Bool) (deadline : Time) (rest : List (Tick Ip)) (s : Scan) : Prop :=
  s.attempts = maxAttempts ∨ s.packets = maxPackets ∨ (stopOnFirst = true ∧ s.results ≠ []) ∨
    ∀ tick, rest.head? = some tick → deadline ≤ tick.now

theorem scanLoop_spec (h : Heard display deadline before s)
    (hfirst : stopOnFirst = true → s.results = []) :
    ∃ n, Heard display deadline (before ++ ticks.take n)
        (scanLoop display stopOnFirst deadline ticks s) ∧
      (stopOnFirst = true → (scanLoop display stopOnFirst deadline ticks s).results.length ≤ 1) ∧
      Stops stopOnFirst deadline (ticks.drop n)
        (scanLoop display stopOnFirst deadline ticks s) := by
  induction ticks generalizing before s with
  | nil =>
    refine ⟨0, by simpa [scanLoop] using h, fun hs => ?_, ?_⟩
    · simp [scanLoop, hfirst hs]
    · exact Or.inr (Or.inr (Or.inr (by simp)))
  | cons tick ticks ih =>
    by_cases hgo : s.attempts < maxAttempts ∧ s.packets < maxPackets ∧ tick.now < deadline
    · obtain ⟨s₁, hs₁, ⟨hfirst₁, hloop⟩ | ⟨hstop, hone, hloop⟩⟩ :=
        @scanLoop_round _ display stopOnFirst deadline tick ticks before s h hfirst hgo.1 hgo.2.1
          hgo.2.2
      · obtain ⟨n, hheard, hone, hstops⟩ := ih hs₁ hfirst₁
        rw [hloop]
        rw [List.append_assoc] at hheard
        exact ⟨n + 1, hheard, hone, hstops⟩
      · rw [hloop]
        refine ⟨1, by simpa using hs₁, fun _ => hone.le, Or.inr (Or.inr (Or.inl ⟨hstop, ?_⟩))⟩
        exact List.ne_nil_of_length_pos (by omega)
    · have hloop : scanLoop display stopOnFirst deadline (tick :: ticks) s = s := by
        rw [scanLoop, if_neg hgo]
      rw [hloop]
      refine ⟨0, by simpa using h, fun hs => by simp [hfirst hs], ?_⟩
      -- The loop has ended for one of its three bounds.
      by_cases hattempts : s.attempts < maxAttempts
      · by_cases hpackets : s.packets < maxPackets
        · refine Or.inr (Or.inr (Or.inr ?_))
          rintro t ⟨⟩
          exact Nat.le_of_not_lt fun hnow => hgo ⟨hattempts, hpackets, hnow⟩
        · exact Or.inr (Or.inl (le_antisymm h.fewPackets (Nat.le_of_not_lt hpackets)))
      · exact Or.inl (le_antisymm h.fewAttempts (Nat.le_of_not_lt hattempts))

end Loop

variable {window : Time} {env : ScanEnv Ip} {host : Ip}

variable [DecidableEq Ip]

theorem filter_answers (hdisplay : Function.Injective display) (ticks : List (Tick Ip))
    (host : Ip) :
    ((answers display ticks).filter fun info => info.ip = display host) =
      answers display (ticks.filter fun tick => tick.source = some host) := by
  induction ticks with
  | nil => rfl
  | cons tick ticks ih =>
    cases hanswer : tick.answer display with
    | none =>
      have hcons : answers display (tick :: ticks) = answers display ticks := by
        simp [answers, hanswer]
      rw [hcons, ih, List.filter_cons]
      split_ifs
      · simp [answers, hanswer]
      · rfl
    | some info =>
      obtain ⟨payload, source, hreceived, hip⟩ := answer_ip hanswer
      have hsource : tick.source = some source := by simp [Tick.source, hreceived, Except.toOption]
      have hcons : answers display (tick :: ticks) = info :: answers display ticks := by
        simp [answers, hanswer]
      rw [hcons, List.filter_cons, List.filter_cons, ih]
      -- The texts of two addresses differ.
      by_cases hhost : source = host
      · rw [if_pos (by simp [hip, hhost]), if_pos (by simp [hsource, hhost])]
        simp [answers, hanswer]
      · rw [if_neg (by simp [hip, hdisplay.eq_iff, hhost]), if_neg (by simp [hsource, hhost])]

/-- A scan that has listened for `n` rounds. -/
structure Scanned (display : Ip → String) (stopOnFirst : Bool) (deadline : Time)
    (ticks : List (Tick Ip)) (s : Scan) (n : ℕ) : Prop where
  /-- What was heard in these rounds. -/
  heard : Heard display deadline (ticks.take n) s
  /-- No console is listed twice. -/
  nodup : (s.results.map identity).Nodup
  /-- A scan for one console lists one. -/
  first : stopOnFirst = true → s.results.length ≤ 1
  /-- The scan had to stop there. -/
  stops : Stops stopOnFirst deadline (ticks.drop n) s
  /-- What is listed of a host is the first answer of each serial number in its own datagrams. -/
  hosts : Function.Injective display → ∀ host,
    (s.results.filter fun info => info.ip = display host) =
      keepFirst DiscoveryInfo.serial
        (answers display ((ticks.take n).filter fun tick => tick.source = some host))

/-- **A scan lists each console once**, by the address its answers come from, whatever is sent by
any other host; it asks and listens for a bounded number of rounds. -/
theorem scanOn_scanned (h : scanOn display stopOnFirst window env = .ok s) :
    ∃ n, Scanned display stopOnFirst (env.started + window) env.ticks s n := by
  unfold scanOn at h
  cases harmed : env.armed with
  | error kind =>
    rw [harmed] at h
    cases h
  | ok u =>
    cases hasked : env.asked with
    | error kind =>
      rw [harmed, hasked] at h
      cases h
    | ok u' =>
      rw [harmed, hasked] at h
      cases h
      obtain ⟨n, hheard, hone, hstops⟩ :=
        @scanLoop_spec _ display stopOnFirst (env.started + window) env.ticks [] ⟨[], 0, 0, 1⟩
          heard_nil fun _ => rfl
      rw [List.nil_append] at hheard
      refine ⟨n, hheard, ?_, hone, hstops, fun hdisplay host => ?_⟩
      · rw [hheard.results]
        exact keepFirst_nodup _ _
      · rw [hheard.results, ← filter_answers hdisplay]
        have hfilter := filter_keepFirst identity (fun k => decide (k.1 = display host))
          (answers display (env.ticks.take n))
        refine hfilter.trans (keepFirst_congr fun a ha b hb => ?_)
        -- All of them have the same address, so that the serial number tells them apart.
        have hip : ∀ info ∈ (answers display (env.ticks.take n)).filter
            (fun info => decide ((identity info).1 = display host)), info.ip = display host :=
          fun info hinfo => of_decide_eq_true (List.mem_filter.1 hinfo).2
        simp [identity, hip a ha, hip b hb]

/-- A round in which a host sends a text. -/
def Tick.text (now : Time) (text : String) (host : String) : Tick String :=
  ⟨now, .ok (), .ok (utf8 text, host)⟩

/-- Nothing is heard at first; then a console answers twice, and another host in its name. -/
def answered : ScanEnv String where
  bound := .ok ()
  armed := .ok ()
  started := 0
  asked := .ok ()
  ticks := [⟨0, .ok (), .error .timedOut⟩,
    .text (millis 500) "WING,10.0.0.9,A,wing,S1,3.1" "10.0.0.2",
    .text (millis 501) "WING" "10.0.0.3",
    .text (millis 502) "WING,10.0.0.2,A,wing,S1,3.1" "10.0.0.2",
    .text (millis 503) "WING,10.0.0.2,B,wing,S1,9.9" "10.0.0.3"]

theorem scanOn_answered :
    ∃ s, scanOn id false (seconds 5) answered = .ok s ∧
      s.results = [⟨"10.0.0.2", "A", "wing", "S1", "3.1"⟩, ⟨"10.0.0.3", "B", "wing", "S1", "9.9"⟩] ∧
      ∃ n, Scanned id false (seconds 5) answered.ticks s n := by
  have hresults : (scanOn id false (seconds 5) answered).map Scan.results =
      .ok [⟨"10.0.0.2", "A", "wing", "S1", "3.1"⟩, ⟨"10.0.0.3", "B", "wing", "S1", "9.9"⟩] := by
    decide +kernel
  cases hscan : scanOn id false (seconds 5) answered with
  | error e =>
    rw [hscan] at hresults
    cases hresults
  | ok s =>
    rw [hscan] at hresults
    obtain ⟨n, hscanned⟩ := scanOn_scanned hscan
    rw [show answered.started + seconds 5 = seconds 5 from Nat.zero_add _] at hscanned
    exact ⟨s, rfl, Except.ok.inj hresults, n, hscanned⟩

/-! ### The probe and the connection -/

/-- A host has sent an answer with this firmware. -/
def Sends (ticks : List (Tick Ip)) (host : Ip) (firmware : String) : Prop :=
  ∃ tick ∈ ticks, ∃ payload text info, tick.received = .ok (payload, host) ∧
    fromUtf8 (payload.take bufferBytes) = some text ∧ DiscoveryInfo.parse text = some info ∧
      info.firmware = firmware

omit [DecidableEq Ip] in
theorem sends_of_fromDatagram {payload : List UInt8} (htick : tick ∈ ticks)
    (hreceived : tick.received = .ok (payload, host))
    (hinfo : fromDatagram display (payload.take bufferBytes) host = some info) :
    Sends ticks host info.firmware := by
  obtain ⟨parsed, hparsed, rfl⟩ := Option.map_eq_some_iff.1 hinfo
  obtain ⟨text, htext, hparse⟩ := Option.bind_eq_some_iff.1 hparsed
  exact ⟨tick, htick, payload, text, parsed, hreceived, htext, hparse, rfl⟩

omit [DecidableEq Ip] in
theorem Sends.mono {firmware : String} (h : Sends ticks host firmware) {ticks' : List (Tick Ip)}
    (hsub : ticks ⊆ ticks') : Sends ticks' host firmware := by
  obtain ⟨t, ht, h⟩ := h
  exact ⟨t, hsub ht, h⟩

/-- A probe hears the host it has asked, and no other. -/
theorem probeLoop_eq_some {firmware : String}
    (h : probeLoop display host deadline ticks = some firmware) : Sends ticks host firmware := by
  induction ticks with
  | nil => cases h
  | cons tick ticks ih =>
    rw [probeLoop] at h
    split_ifs at h with hnow
    cases harmed : tick.armed with
    | error kind =>
      rw [harmed] at h
      cases h
    | ok u =>
      cases hreceived : tick.received with
      | error kind =>
        rw [harmed, hreceived] at h
        cases h
      | ok d =>
        obtain ⟨payload, source⟩ := d
        rw [harmed, hreceived] at h
        simp only at h
        split_ifs at h with hsource
        · subst hsource
          obtain ⟨info, hinfo, rfl⟩ := Option.map_eq_some_iff.1 h
          exact sends_of_fromDatagram List.mem_cons_self hreceived hinfo
        · exact (ih h).mono (List.subset_cons_self _ _)

theorem probeFirmware_eq_some {env : ProbeEnv Ip} {firmware : String}
    (h : probeFirmware display host env = some firmware) : Sends env.ticks host firmware := by
  unfold probeFirmware at h
  cases hbound : env.bound with
  | error kind =>
    rw [hbound] at h
    cases h
  | ok u =>
    cases hasked : env.asked with
    | error kind =>
      rw [hbound, hasked] at h
      cases h
    | ok u' =>
      rw [hbound, hasked] at h
      exact probeLoop_eq_some h

theorem sends_of_scan {devices : List DiscoveryInfo}
    (h : scan display stopOnFirst env = .ok devices) :
    ∀ device ∈ devices, ∃ host, device.ip = display host ∧
      Sends env.ticks host device.firmware := by
  unfold scan at h
  cases hbound : env.bound with
  | error kind =>
    rw [hbound] at h
    cases h
  | ok u =>
    rw [hbound] at h
    cases hscan : scanOn display stopOnFirst (seconds 5) env with
    | error e =>
      simp only [hscan] at h
      cases h
    | ok s =>
      simp only [hscan] at h
      cases h
      intro device hdevice
      obtain ⟨n, hscanned⟩ := scanOn_scanned hscan
      rw [hscanned.heard.results] at hdevice
      obtain ⟨tick, htick, hanswer⟩ :=
        List.mem_filterMap.1 ((keepFirst_sublist _ _).subset hdevice)
      obtain ⟨payload, host, hreceived, hip⟩ := answer_ip hanswer
      have hinfo : fromDatagram display (payload.take bufferBytes) host = some device := by
        simpa [Tick.answer, hreceived, Except.toOption] using hanswer
      exact ⟨host, hip, sends_of_fromDatagram (List.mem_of_mem_take htick) hreceived hinfo⟩

variable {connectEnv : ConnectEnv Ip} {console : Connected Ip}

theorem connectLoop_eq_ok {firmwareHint : Option String} {addrs : List Ip} {err : Option Error}
    (h : connectLoop display connectEnv firmwareHint addrs err = .ok console) :
    console.peerIp ∈ addrs ∧ connectEnv.handshake console.peerIp = .ok () ∧
      console.firmware = firmwareHint.or
        (probeFirmware display console.peerIp (connectEnv.probe console.peerIp)) := by
  induction addrs generalizing err with
  | nil => cases h
  | cons addr addrs ih =>
    rw [connectLoop] at h
    cases hshake : connectEnv.handshake addr with
    | error e =>
      rw [hshake] at h
      obtain ⟨hmem, hrest⟩ := ih h
      exact ⟨List.mem_cons_of_mem _ hmem, hrest⟩
    | ok u =>
      rw [hshake] at h
      cases h
      exact ⟨List.mem_cons_self, hshake, rfl⟩

/-- What a console is known by. -/
structure Known (env : ConnectEnv Ip) (hostOrIp : Option String) (console : Connected Ip) :
    Prop where
  /-- The handshake with it has succeeded. -/
  shaken : env.handshake console.peerIp = .ok ()
  /-- A console that was not named has answered the scan itself, … -/
  answered : hostOrIp = none → ∃ firmware, console.firmware = some firmware ∧
    Sends env.scan.ticks console.peerIp firmware
  /-- … and one that was named is at an address of the name. -/
  named : ∀ name, hostOrIp = some name → ∃ addrs, env.resolve name = .ok addrs ∧
    console.peerIp ∈ addrs
  /-- No other host has told its firmware. -/
  firmware : ∀ firmware, console.firmware = some firmware →
    Sends (env.scan.ticks ++ (env.probe console.peerIp).ticks) console.peerIp firmware

/-- **A connection is to a host that speaks for itself**: without a name, to one whose own answer
the scan has heard; and the firmware that is known of it is in a datagram that came from its
address.  A displayed address is looked up as itself. -/
theorem connect_known {hostOrIp : Option String}
    (hresolve : ∀ host, connectEnv.resolve (display host) = .ok [host])
    (h : connect display hostOrIp connectEnv = .ok console) :
      Known connectEnv hostOrIp console := by
  unfold connect at h
  cases htarget : connectTarget display hostOrIp connectEnv.scan with
  | error e =>
    rw [htarget] at h
    cases h
  | ok target =>
    obtain ⟨name, hint⟩ := target
    rw [htarget] at h
    cases haddrs : connectEnv.resolve name with
    | error kind =>
      simp only [haddrs] at h
      cases h
    | ok addrs =>
      simp only [haddrs] at h
      cases hloop : connectLoop display connectEnv hint addrs none with
      | error e =>
        rw [hloop] at h
        cases h
      | ok console' =>
        rw [hloop] at h
        cases h
        obtain ⟨hmem, hshake, hfirmware⟩ := connectLoop_eq_ok hloop
        cases hostOrIp with
        | some host =>
          cases htarget
          refine ⟨hshake, fun hnone => ?_, fun _ hname => ?_, fun firmware hknown => ?_⟩
          · cases hnone
          · cases hname
            exact ⟨addrs, haddrs, hmem⟩
          · rw [hfirmware, Option.none_or] at hknown
            exact (probeFirmware_eq_some hknown).mono (List.subset_append_right _ _)
        | none =>
          cases hscan : scan display true connectEnv.scan with
          | error e =>
            simp only [connectTarget, hscan] at htarget
            cases htarget
          | ok devices =>
            cases devices with
            | nil =>
              simp only [connectTarget, hscan] at htarget
              cases htarget
            | cons device devices =>
              simp only [connectTarget, hscan] at htarget
              cases htarget
              obtain ⟨host, hip, hsends⟩ := sends_of_scan hscan device List.mem_cons_self
              -- The answer names its own host, and that is the only address there is.
              rw [hip, hresolve host] at haddrs
              cases haddrs
              have hpeer : console.peerIp = host := List.mem_singleton.1 hmem
              rw [← hpeer] at hsends
              rw [Option.some_or] at hfirmware
              refine ⟨hshake, fun _ => ⟨_, hfirmware, hsends⟩, fun name hname => ?_,
                fun firmware hknown => ?_⟩
              · cases hname
              · rw [hfirmware] at hknown
                cases hknown
                exact hsends.mono (List.subset_append_left _ _)

/-- The first answer names another host than the one it comes from. -/
def selfNamed : ConnectEnv String where
  scan := answered
  resolve host := .ok [host]
  handshake _ := .ok ()
  probe _ := ⟨.ok (), .ok (), 0, []⟩

theorem connect_selfNamed :
    ∃ console, connect id none selfNamed = .ok console ∧ console.peerIp = "10.0.0.2" ∧
      Known selfNamed none console := by
  have hpeer : (connect id none selfNamed).map Connected.peerIp = .ok "10.0.0.2" := by
    decide +kernel
  cases hconnect : connect id none selfNamed with
  | error e =>
    rw [hconnect] at hpeer
    cases hpeer
  | ok console =>
    rw [hconnect] at hpeer
    exact ⟨console, rfl, Except.ok.inj hpeer, connect_known (fun _ => rfl) hconnect⟩

end Discovery

end LibWing
