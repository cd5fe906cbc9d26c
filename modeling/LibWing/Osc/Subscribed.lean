import Mathlib.Data.List.Chain
import LibWing.Osc.RoundTrip
import LibWing.Osc.Subscription

/-!
# What becomes of a subscription

A client subscribes, renews and polls in any order, and whatever happens to its socket.

* `Stepped`, `stepped` : what a step can do;
* `run_reported` : every datagram that is taken is reported by the poll that took it;
* `run_spaced` : the renewals of a poll are for the latest subscription, and an interval apart;
* `run_alive` : if the caller keeps polling, the subscription is renewed in time.
-/

namespace LibWing

namespace Osc

namespace Subscription

variable {replyPort : Option UInt16} {i : Input} {s s' : State} {format : SubscriptionFormat}
  {renewInterval : Time}

/-! ### The message -/

/-- A character of ASCII that is no NUL. -/
def Plain (c : Char) : Prop := 0 < c.val.toNat ∧ c.val.toNat < 128

theorem Plain.encode {c : Char} (h : Plain c) :
    ∃ byte, String.utf8EncodeChar c = [byte] ∧ byte ≠ 0 := by
  have hsize : c.utf8Size = 1 := by
    rw [Char.utf8Size_eq_one_iff, UInt32.le_iff_toNat_le]
    exact Nat.le_of_lt_succ h.2
  refine ⟨_, String.utf8EncodeChar_eq_singleton hsize, fun h0 => ?_⟩
  have hnat := congrArg UInt8.toNat h0
  rw [UInt32.toNat_toUInt8, Nat.mod_eq_of_lt (h.2.trans (by decide))] at hnat
  exact h.1.ne' hnat

theorem utf8_plain {cs : List Char} (h : ∀ c ∈ cs, Plain c) :
    0 ∉ utf8 (String.ofList cs) ∧ (utf8 (String.ofList cs)).length = cs.length := by
  rw [utf8_ofList]
  induction cs with
  | nil => simp
  | cons c cs ih =>
    obtain ⟨hc, h⟩ := List.forall_mem_cons.1 h
    obtain ⟨byte, hbyte, hne⟩ := hc.encode
    obtain ⟨hnul, hlength⟩ := ih h
    rw [List.flatMap_cons, hbyte]
    exact ⟨by simp [hnul, hne.symm], by simp [hlength]⟩

theorem plain_of_isDigit {c : Char} (h : c.isDigit = true) : Plain c := by
  simp only [Char.isDigit, Bool.and_eq_true, decide_eq_true_eq, ge_iff_le,
    UInt32.le_iff_toNat_le] at h
  have hrange : 48 ≤ c.val.toNat ∧ c.val.toNat ≤ 57 := h
  constructor <;> omega

theorem plain_address (format : SubscriptionFormat) : ∀ c ∈ format.address.toList, Plain c := by
  -- As a check of the list: the characters are finitely many, and would be tried one by one.
  have hall : (format.address.toList.all fun c =>
      decide (0 < c.val.toNat ∧ c.val.toNat < 128)) = true := by
    cases format <;> decide
  intro c hc
  have hplain : 0 < c.val.toNat ∧ c.val.toNat < 128 :=
    of_decide_eq_true (List.all_eq_true.1 hall c hc)
  exact hplain

theorem encode_subscriptionMessage (replyPort : Option UInt16) (format : SubscriptionFormat) :
    ∃ bytes, encode (subscriptionMessage replyPort format) = .ok bytes := by
  obtain ⟨cs, haddr, hargs, hplain, hlength⟩ : ∃ cs : List Char,
      (subscriptionMessage replyPort format).addr = String.ofList cs ∧
        (subscriptionMessage replyPort format).args = [] ∧ (∀ c ∈ cs, Plain c) ∧
          cs.length ≤ 20 := by
    have haddress : format.address.toList.length = 3 := by cases format <;> rfl
    cases replyPort with
    | none =>
      exact ⟨format.address.toList, by simp [subscriptionMessage, subscribe], rfl,
        plain_address format, by omega⟩
    | some port =>
      have hport : (Nat.toDigits 10 port.toNat).length ≤ 5 :=
        (Nat.length_toDigits_le_iff (by decide) (by decide)).2 (port.toNat_lt.trans (by decide))
      refine ⟨_, rfl, rfl, ?_, ?_⟩
      · intro c hc
        simp only [List.mem_cons, List.mem_append] at hc
        rcases hc with rfl | rfl | hc | hc
        · exact ⟨by decide, by decide⟩
        · exact ⟨by decide, by decide⟩
        · exact plain_of_isDigit (isDigit_of_mem_toDigits hc)
        · exact plain_address format c hc
      · simp only [List.length_cons, List.length_append, subscribe]
        omega
  obtain ⟨hnul, hbytes⟩ := utf8_plain hplain
  refine ⟨_, encode_eq_ok.2 ⟨⟨?_, ?_⟩, ?_, rfl⟩⟩
  · rwa [haddr]
  · rw [hargs]
    simp
  · rw [body, hargs, if_pos rfl, List.append_nil, oscString_length, haddr, hbytes]
    unfold paddedTotal maxPacketBytes
    omega

/-! ### Steps -/

/-- The message that is about to be sent: its format and interval, whether a poll sends it, and what
comes next. -/
def State.sending (s : State) : Option (SubscriptionFormat × Time × Bool × Phase) :=
  match s.phase with
  | .subscribing format renewInterval =>
    some (format, renewInterval, false, .scheduling format renewInterval)
  | .renewing poll =>
    s.subscription.map fun sub => (sub.format, sub.renewInterval, poll.isSome, .rescheduling poll)
  | _ => none

/-- A phase behind a message that was sent. -/
def Phase.sent : Phase → Prop
  | .scheduling .. | .rescheduling _ => True
  | _ => False

/-- A phase in which a poll can end without having sent anything. -/
def Phase.waits : Phase → Prop
  | .checking _ | .arming .. | .receiving .. => True
  | _ => False

/-- A call returns no event. -/
def NoEvent (result : Returned) : Prop := ∀ event, result ≠ .ok (some event)

theorem noEvent_none : NoEvent (.ok none) := by
  intro event h
  cases h

theorem noEvent_error (e : ClientError) : NoEvent (.error e) := by
  intro event h
  cases h

/-- What the client does. -/
inductive Stepped (replyPort : Option UInt16) (i : Input) (s : State) : State → Prop where
  | rest (hphase : s.phase = .idle) (hcall : i.call = none) : Stepped replyPort i s s
  | ask (hphase : s.phase = .idle) (format : SubscriptionFormat) (renewInterval : Time) :
    Stepped replyPort i s { s with phase := .subscribing format renewInterval }
  | askAgain (hphase : s.phase = .idle) (hsub : s.subscription.isSome = true) :
    Stepped replyPort i s { s with phase := .renewing none }
  | poll (hphase : s.phase = .idle) (hsub : s.subscription.isSome = true) (deadline : Time) :
    Stepped replyPort i s { s with phase := .polling deadline }
  /-- A call ends without an event: nothing has been taken from the socket for it. -/
  | fail (result : Returned) (hresult : NoEvent result) (hunsent : ¬ s.phase.sent)
    (hcause : i.localAddr = .ok () → i.sent = .ok () → s.subscription.isSome = true →
      s.phase.waits) :
    Stepped replyPort i s (s.returns result)
  | send (format : SubscriptionFormat) (renewInterval : Time) (automatic : Bool) (next : Phase)
    (hsending : s.sending = some (format, renewInterval, automatic, next)) :
    Stepped replyPort i s
      { s with
        phase := next
        sent := s.sent ++ [⟨s.now, format, subscriptionMessage replyPort format, renewInterval,
          automatic⟩] }
  | schedule (format : SubscriptionFormat) (renewInterval : Time)
    (hphase : s.phase = .scheduling format renewInterval) :
    Stepped replyPort i s
      ({ s with subscription := some ⟨format, renewInterval, s.now + renewInterval⟩ }.returns
        (.ok none))
  | reschedule (hphase : s.phase = .rescheduling none) :
    Stepped replyPort i s
      ({ s with subscription := s.subscription.map (SubscriptionState.reschedule · s.now) }.returns
        (.ok none))
  | repoll (deadline : Time) (hphase : s.phase = .rescheduling (some deadline)) :
    Stepped replyPort i s
      { s with
        subscription := s.subscription.map (SubscriptionState.reschedule · s.now)
        phase := .checking deadline }
  | due (deadline : Time) (hphase : s.phase = .polling deadline)
    (hdue : ∃ sub, s.subscription = some sub ∧ sub.nextRenew ≤ s.now) :
    Stepped replyPort i s { s with phase := .renewing (some deadline) }
  | notDue (deadline : Time) (hphase : s.phase = .polling deadline)
    (hdue : ∀ sub, s.subscription = some sub → s.now < sub.nextRenew) :
    Stepped replyPort i s { s with phase := .checking deadline }
  | check (deadline : Time) (hphase : s.phase = .checking deadline) :
    Stepped replyPort i s { s with phase := .arming deadline (deadline - s.now) }
  | arm (deadline untilDeadline wait : Time) (hphase : s.phase = .arming deadline untilDeadline)
    (hwait : ∀ sub, s.subscription = some sub → wait ≤ max (sub.nextRenew - s.now) (millis 1)) :
    Stepped replyPort i s { s with phase := .receiving deadline wait }
  | take (deadline wait : Time) (hphase : s.phase = .receiving deadline wait) (bytes : Datagram) :
    Stepped replyPort i s ({ s with taken := s.taken ++ [bytes] }.returns (report bytes))
  | retry (deadline wait : Time) (hphase : s.phase = .receiving deadline wait) :
    Stepped replyPort i s { s with phase := .polling deadline }

theorem State.unsent_of_sending {s : State} (h : s.sending ≠ none) : ¬ s.phase.sent := by
  intro hsent
  unfold State.sending at h
  cases hphase : s.phase <;> rw [hphase] at hsent h <;> first | exact hsent | exact h rfl

theorem stepped_send {automatic : Bool} {next : Phase}
    (hsending : s.sending = some (format, renewInterval, automatic, next)) :
    Stepped replyPort i s (s.send replyPort i format renewInterval automatic next) := by
  obtain ⟨bytes, hbytes⟩ := encode_subscriptionMessage replyPort format
  have hunsent : ¬ s.phase.sent :=
    State.unsent_of_sending (by rw [hsending]; exact Option.some_ne_none _)
  unfold State.send
  cases haddr : (if replyPort.isSome then i.localAddr else .ok () : Except IoErrorKind Unit) with
  | error kind =>
    refine .fail _ (noEvent_error _) hunsent fun hok => ?_
    rw [hok, ite_self] at haddr
    cases haddr
  | ok u =>
    simp only [hbytes]
    cases hsent : i.sent with
    | error kind =>
      refine .fail _ (noEvent_error _) hunsent fun _ hok => ?_
      rw [hok] at hsent
      cases hsent
    | ok u' => exact .send format renewInterval automatic next hsending

theorem waitTime_le {untilDeadline untilRenew : Time} :
    waitTime untilDeadline untilRenew ≤ max untilRenew (millis 1) :=
  max_le_max_right _ (min_le_right _ _)

theorem stepped : Stepped replyPort i s (s.act replyPort i) := by
  unfold State.act
  cases hphase : s.phase with
  | idle =>
    have hunsent : ¬ s.phase.sent := by rw [hphase]; exact id
    cases hcall : i.call with
    | none => exact .rest hphase hcall
    | some call =>
      simp only [Option.elim_some]
      cases call with
      | subscribe format renewInterval => exact .ask hphase format renewInterval
      | renew =>
        cases hsub : s.subscription with
        | none =>
          have hbegin : s.begin .renew = s.returns (.ok none) := by simp only [State.begin, hsub]
          rw [hbegin]
          exact .fail _ noEvent_none hunsent fun _ _ hsome => absurd hsome (by simp [hsub])
        | some sub =>
          have hbegin : s.begin .renew = { s with phase := .renewing none } := by
            simp only [State.begin, hsub]
          rw [hbegin]
          exact .askAgain hphase (by simp [hsub])
      | pollEvent timeout =>
        cases hsub : s.subscription with
        | none =>
          have hbegin : s.begin (.pollEvent timeout) = s.returns (.error (.codec (.error
              (.malformed "poll_event called with no active subscription")))) := by
            simp only [State.begin, hsub]
          rw [hbegin]
          exact .fail _ (noEvent_error _) hunsent fun _ _ hsome => absurd hsome (by simp [hsub])
        | some sub =>
          have hbegin : s.begin (.pollEvent timeout) =
              { s with phase := .polling (s.now + timeout) } := by
            simp only [State.begin, hsub]
          rw [hbegin]
          exact .poll hphase (by simp [hsub]) _
  | subscribing format renewInterval => exact stepped_send (by rw [State.sending, hphase])
  | scheduling format renewInterval => exact .schedule format renewInterval hphase
  | renewing poll =>
    have hunsent : ¬ s.phase.sent := by rw [hphase]; exact id
    cases hsub : s.subscription with
    | none => exact .fail _ noEvent_none hunsent fun _ _ hsome => absurd hsome (by simp [hsub])
    | some sub => exact stepped_send (by rw [State.sending, hphase, hsub]; rfl)
  | rescheduling poll =>
    cases poll with
    | none => exact .reschedule hphase
    | some deadline => exact .repoll deadline hphase
  | polling deadline =>
    simp only
    split_ifs with hdue
    · refine .due deadline hphase ?_
      simpa [Option.any_eq_true] using hdue
    · refine .notDue deadline hphase fun sub hsub => ?_
      rw [hsub] at hdue
      simpa using hdue
  | checking deadline =>
    have hunsent : ¬ s.phase.sent := by rw [hphase]; exact id
    have hwaits : s.phase.waits := by rw [hphase]; trivial
    simp only
    split_ifs
    · exact .fail _ (noEvent_error _) hunsent fun _ _ _ => hwaits
    · exact .check deadline hphase
  | arming deadline untilDeadline =>
    have hunsent : ¬ s.phase.sent := by rw [hphase]; exact id
    have hwaits : s.phase.waits := by rw [hphase]; trivial
    cases i.armed with
    | error kind => exact .fail _ (noEvent_error _) hunsent fun _ _ _ => hwaits
    | ok u =>
      refine .arm deadline untilDeadline _ hphase fun sub hsub => ?_
      rw [hsub]
      exact waitTime_le
  | receiving deadline wait =>
    have hunsent : ¬ s.phase.sent := by rw [hphase]; exact id
    have hwaits : s.phase.waits := by rw [hphase]; trivial
    cases i.received with
    | ok bytes => exact .take deadline wait hphase _
    | error kind =>
      have hfail : Stepped replyPort i s (s.returns (.error (.io kind))) :=
        .fail _ (noEvent_error _) hunsent fun _ _ _ => hwaits
      cases kind with
      | wouldBlock => exact .retry deadline wait hphase
      | timedOut => exact .retry deadline wait hphase
      | interrupted => exact hfail
      | other code => exact hfail

/-! ### Events -/

/-- The event of a result. -/
def eventOf : Returned → Option OscEvent
  | .ok event => event
  | .error _ => none

theorem NoEvent.eventOf {result : Returned} (h : NoEvent result) : eventOf result = none := by
  cases result with
  | error e => rfl
  | ok event =>
    cases event with
    | none => rfl
    | some event => exact absurd rfl (h event)

theorem eventOf_report (bytes : Datagram) :
    eventOf (report bytes) = ((decode bytes).toOption).map classifyEvent := by
  unfold report
  cases decode bytes <;> rfl

/-- The results are the reports of the datagrams, and some that are no events. -/
structure Tallied (s : State) : Prop where
  /-- What was taken was reported, in order. -/
  reported : (s.taken.map report).Sublist s.returned
  /-- The events among the results are those of what was taken. -/
  events : s.returned.filterMap eventOf = (s.taken.map report).filterMap eventOf

theorem Tallied.of_eq (h : Tallied s) (htaken : s'.taken = s.taken)
    (hreturned : s'.returned = s.returned) : Tallied s' := by
  constructor
  · rw [htaken, hreturned]
    exact h.reported
  · rw [htaken, hreturned]
    exact h.events

theorem Tallied.returns (h : Tallied s) {result : Returned} (hresult : NoEvent result)
    (htaken : s'.taken = s.taken) (hreturned : s'.returned = s.returned ++ [result]) :
    Tallied s' := by
  constructor
  · rw [htaken, hreturned]
    exact h.reported.trans (List.sublist_append_left _ _)
  · rw [htaken, hreturned, List.filterMap_append, h.events]
    simp [hresult.eventOf]

theorem Tallied.act (h : Tallied s) : Tallied (s.act replyPort i) := by
  have hstep := @stepped replyPort i s
  generalize s.act replyPort i = s' at hstep ⊢
  cases hstep with
  | rest => exact h
  | ask | askAgain | poll | send | repoll | due | notDue | check | arm | retry =>
      exact h.of_eq rfl rfl
  | fail result hresult => exact h.returns hresult rfl rfl
  | schedule | reschedule => exact h.returns noEvent_none rfl rfl
  | take deadline wait hphase bytes =>
    constructor
    · simpa [State.returns] using h.reported.append (List.Sublist.refl [report bytes])
    · simp [State.returns, h.events]

/-- What is reported of the datagrams. -/
structure Reported (s : State) : Prop where
  /-- Each of them by a result of its own, in the order in which they were taken. -/
  reported : (s.taken.map report).Sublist s.returned
  /-- Those that can be decoded are the events, and nothing of them is lost. -/
  events : (s.returned.filterMap eventOf).map OscEvent.message =
    s.taken.filterMap fun bytes => (decode bytes).toOption
  /-- No acknowledgement is reported as a value. -/
  acks : ∀ event ∈ s.returned.filterMap eventOf,
    Acknowledges event.message → event = .raw event.message

/-- **Every datagram that a poll takes is reported**, once and in order, with its whole message,
whatever else the client is asked for. -/
theorem run_reported (replyPort : Option UInt16) (now : Time) (inputs : List Input) :
    Reported (run replyPort (.new now) inputs) := by
  have htallied : Tallied (run replyPort (.new now) inputs) := by
    refine List.foldlRecOn inputs (step replyPort) ⟨List.Sublist.refl _, rfl⟩ fun s h i _ => ?_
    exact (h.of_eq rfl rfl : Tallied (s.after i)).act
  refine ⟨htallied.reported, ?_, fun event hevent hack => ?_⟩
  · rw [htallied.events, List.filterMap_map, List.map_filterMap]
    refine List.filterMap_congr fun bytes _ => ?_
    rw [Function.comp_apply, eventOf_report, Option.map_map]
    cases (decode bytes).toOption with
    | none => rfl
    | some msg => exact congrArg some (message_classifyEvent msg)
  · rw [htallied.events, List.filterMap_map] at hevent
    obtain ⟨bytes, -, hbytes⟩ := List.mem_filterMap.1 hevent
    rw [Function.comp_apply, eventOf_report] at hbytes
    obtain ⟨msg, -, rfl⟩ := Option.map_eq_some_iff.1 hbytes
    rw [message_classifyEvent] at hack ⊢
    exact classifyEvent_of_acknowledges hack

/-! ### The distance of renewals -/

/-- A message that a poll sends is for the subscription of the one before it, and not too early. -/
def Spaced (a b : Sent) : Prop :=
  b.automatic = true →
    b.format = a.format ∧ b.renewInterval = a.renewInterval ∧ a.time + a.renewInterval ≤ b.time

/-- The message a subscription was last asked for by. -/
structure SubscriptionState.Asked (sub : SubscriptionState) (last : Sent) : Prop where
  /-- It is for the format of that message. -/
  format : last.format = sub.format
  /-- It has its interval. -/
  renewInterval : last.renewInterval = sub.renewInterval

/-- What holds of the last message in a phase. -/
def Behind (s : State) : Phase → Prop
  | .scheduling format renewInterval => ∃ last, s.sent.getLast? = some last ∧ last.format = format ∧
      last.renewInterval = renewInterval ∧ last.time ≤ s.now
  | .rescheduling _ => ∀ sub, s.subscription = some sub →
      ∃ last, s.sent.getLast? = some last ∧ sub.Asked last ∧ last.time ≤ s.now
  | .renewing (some _) => ∀ sub, s.subscription = some sub →
      ∃ last, s.sent.getLast? = some last ∧ sub.Asked last ∧
        last.time + last.renewInterval ≤ sub.nextRenew ∧ sub.nextRenew ≤ s.now
  | _ => ∀ sub, s.subscription = some sub →
      ∃ last, s.sent.getLast? = some last ∧ sub.Asked last ∧
        last.time + last.renewInterval ≤ sub.nextRenew

/-- In every phase before a message is sent, the next renewal is an interval behind the last one. -/
theorem Behind.before {phase : Phase} (h : Behind s phase) (hunsent : ¬ phase.sent) :
    ∀ sub, s.subscription = some sub →
      ∃ last, s.sent.getLast? = some last ∧ sub.Asked last ∧
        last.time + last.renewInterval ≤ sub.nextRenew := by
  cases phase with
  | scheduling => exact absurd trivial hunsent
  | rescheduling => exact absurd trivial hunsent
  | renewing poll =>
    cases poll with
    | none => exact h
    | some deadline =>
      intro sub hsub
      obtain ⟨last, hlast, hasked, hnext, -⟩ := h sub hsub
      exact ⟨last, hlast, hasked, hnext⟩
  | idle | subscribing | polling | checking | arming | receiving => exact h

/-- The messages that were sent. -/
structure Spacing (replyPort : Option UInt16) (s : State) : Prop where
  /-- Each keeps its distance to the one before. -/
  spaced : s.sent.IsChain Spaced
  /-- Each message is that of its format. -/
  message : ∀ m ∈ s.sent, m.message = subscriptionMessage replyPort m.format
  /-- What the phase says of the last one. -/
  behind : Behind s s.phase

theorem Spacing.after (h : Spacing replyPort s) (i : Input) : Spacing replyPort (s.after i) := by
  refine ⟨h.spaced, h.message, ?_⟩
  have hle : s.now ≤ (s.after i).now := Nat.le_add_right _ _
  have hbehind := h.behind
  change Behind (s.after i) s.phase
  cases hphase : s.phase with
  | scheduling format renewInterval =>
    rw [hphase] at hbehind
    obtain ⟨last, hlast, hformat, hinterval, htime⟩ := hbehind
    exact ⟨last, hlast, hformat, hinterval, htime.trans hle⟩
  | rescheduling poll =>
    rw [hphase] at hbehind
    intro sub hsub
    obtain ⟨last, hlast, hasked, htime⟩ := hbehind sub hsub
    exact ⟨last, hlast, hasked, htime.trans hle⟩
  | renewing poll =>
    rw [hphase] at hbehind
    cases poll with
    | none => exact hbehind
    | some deadline =>
      intro sub hsub
      obtain ⟨last, hlast, hasked, hnext, htime⟩ := hbehind sub hsub
      exact ⟨last, hlast, hasked, hnext, htime.trans hle⟩
  | idle | subscribing | polling | checking | arming | receiving =>
    rw [hphase] at hbehind
    exact hbehind

theorem Spacing.act (h : Spacing replyPort s) : Spacing replyPort (s.act replyPort i) := by
  have hbehind := h.behind
  have hstep := @stepped replyPort i s
  generalize s.act replyPort i = s' at hstep ⊢
  cases hstep with
  | rest => exact h
  | ask hphase | poll hphase | askAgain hphase =>
    rw [hphase] at hbehind
    exact ⟨h.spaced, h.message, hbehind⟩
  | fail result hresult hunsent => exact ⟨h.spaced, h.message, hbehind.before hunsent⟩
  | notDue deadline hphase | check deadline hphase | arm deadline untilDeadline wait hphase
  | take deadline wait hphase | retry deadline wait hphase =>
    rw [hphase] at hbehind
    exact ⟨h.spaced, h.message, hbehind⟩
  | due deadline hphase hdue =>
    rw [hphase] at hbehind
    refine ⟨h.spaced, h.message, fun sub hsub => ?_⟩
    obtain ⟨last, hlast, hasked, hnext⟩ := hbehind sub hsub
    -- A renewal is made only when it is due.
    obtain ⟨sub', hsub', hnow⟩ := hdue
    cases hsub.symm.trans hsub'
    exact ⟨last, hlast, hasked, hnext, hnow⟩
  | schedule format renewInterval hphase =>
    rw [hphase] at hbehind
    obtain ⟨last, hlast, hformat, hinterval, htime⟩ := hbehind
    refine ⟨h.spaced, h.message, fun sub hsub => ?_⟩
    cases hsub
    refine ⟨last, hlast, ⟨hformat, hinterval⟩, ?_⟩
    rw [hinterval]
    exact Nat.add_le_add_right htime _
  | reschedule hphase | repoll deadline hphase =>
    rw [hphase] at hbehind
    refine ⟨h.spaced, h.message, fun sub hsub => ?_⟩
    obtain ⟨old, hold, rfl⟩ := Option.map_eq_some_iff.1 hsub
    obtain ⟨last, hlast, hasked, htime⟩ := hbehind old hold
    refine ⟨last, hlast, ⟨hasked.format, hasked.renewInterval⟩, ?_⟩
    rw [hasked.renewInterval]
    exact Nat.add_le_add_right htime _
  | send format renewInterval automatic next hsending =>
    have hmessage : ∀ m ∈ s.sent ++ [⟨s.now, format, subscriptionMessage replyPort format,
        renewInterval, automatic⟩], m.message = subscriptionMessage replyPort m.format := by
      intro m hm
      rcases List.mem_append.1 hm with hm | hm
      · exact h.message m hm
      · rw [List.mem_singleton.1 hm]
    unfold State.sending at hsending
    cases hphase : s.phase with
    | subscribing f r =>
      rw [hphase] at hsending
      cases hsending
      -- A subscription that the caller asks for may follow at once.
      refine ⟨h.spaced.append (List.isChain_singleton _) fun a _ b hb => ?_, hmessage, ?_⟩
      · cases hb
        exact fun hauto => absurd hauto Bool.false_ne_true
      · exact ⟨_, List.getLast?_concat .., rfl, rfl, le_rfl⟩
    | renewing poll =>
      rw [hphase] at hsending hbehind
      obtain ⟨sub, hsub, heq⟩ := Option.map_eq_some_iff.1 hsending
      cases heq
      refine ⟨h.spaced.append (List.isChain_singleton _) fun a ha b hb hauto => ?_, hmessage, ?_⟩
      · -- Only a poll sends on its own account, and only when it is due.
        cases hb
        cases poll with
        | none => cases hauto
        | some deadline =>
          obtain ⟨last, hlast, hasked, hnext, hnow⟩ := hbehind sub hsub
          cases hlast.symm.trans ha
          exact ⟨hasked.format.symm, hasked.renewInterval.symm, hnext.trans hnow⟩
      · intro sub' hsub'
        cases hsub.symm.trans hsub'
        exact ⟨_, List.getLast?_concat .., ⟨rfl, rfl⟩, le_rfl⟩
    | _ =>
      rw [hphase] at hsending
      cases hsending

/-- **The renewals of a poll do not crowd**: each is for the format that was asked for last, and is
sent an interval after the message before it, or later. -/
theorem run_spaced (replyPort : Option UInt16) (now : Time) (inputs : List Input) :
    (run replyPort (.new now) inputs).sent.IsChain Spaced ∧
      ∀ m ∈ (run replyPort (.new now) inputs).sent,
        m.message = subscriptionMessage replyPort m.format := by
  have hspacing : Spacing replyPort (run replyPort (.new now) inputs) := by
    refine List.foldlRecOn inputs (step replyPort) ⟨List.isChain_nil, by simp [State.new], ?_⟩
      fun s h i _ => (h.after i).act
    intro sub hsub
    cases hsub
  exact ⟨hspacing.spaced, hspacing.message⟩

/-! ### Renewal in time -/

section Alive

variable {ε : Time}

/-- How long a phase may last by itself. -/
def Phase.wait : Phase → Time
  | .receiving _ wait => wait
  | _ => 0

/-- A step is prompt: the socket sends, a caller whose call has returned makes another one, and what
has to be done is done within `ε`. -/
structure Prompt (ε : Time) (s : State) (i : Input) : Prop where
  /-- The socket has an address. -/
  localAddr : i.localAddr = .ok ()
  /-- The message is sent. -/
  sent : i.sent = .ok ()
  /-- An idle client is asked for something. -/
  call : s.phase = .idle → i.call ≠ none
  /-- No more time passes than the client waits, and a little. -/
  elapsed : i.elapsed ≤ s.phase.wait + ε

/-- Every step of a run is prompt. -/
def PromptRun (replyPort : Option UInt16) (ε : Time) : State → List Input → Prop
  | _, [] => True
  | s, i :: inputs => Prompt ε s i ∧ PromptRun replyPort ε (step replyPort s i) inputs

/-- How much later than the next renewal it may be in a phase. -/
def Phase.lateness (ε : Time) : Phase → Time
  | .idle => 3 * ε + millis 1
  | .subscribing .. | .polling _ => 4 * ε + millis 1
  | .renewing _ => 5 * ε + millis 1
  | .checking _ => 0
  | .arming .. => ε
  | .receiving .. => 2 * ε + millis 1
  | .scheduling .. | .rescheduling _ => 0

/-- A subscription, and its message was the last one. -/
structure Holds (ε : Time) (s : State) (last : Sent) (sub : SubscriptionState) : Prop where
  /-- It is the one in place. -/
  subscription : s.subscription = some sub
  /-- Its interval is that of the message. -/
  renewInterval : sub.renewInterval = last.renewInterval
  /-- The next renewal is not scheduled too late. -/
  nextRenew : sub.nextRenew ≤ last.time + last.renewInterval + ε

/-- What holds in a phase when it has lasted for `spent` beyond the time that it may take. -/
def Fresh (ε spent : Time) (s : State) (last : Sent) (wait : Time) : Phase → Prop
  | .scheduling _ renewInterval => s.now ≤ last.time + spent ∧ last.renewInterval = renewInterval
  | .rescheduling _ => s.now ≤ last.time + spent ∧
      ∃ sub, s.subscription = some sub ∧ sub.renewInterval = last.renewInterval
  | phase => ∃ sub, Holds ε s last sub ∧ s.now + wait ≤ sub.nextRenew + phase.lateness ε + spent

theorem fresh_iff {spent wait : Time} {last : Sent} {phase : Phase} (hunsent : ¬ phase.sent) :
    Fresh ε spent s last wait phase ↔
      ∃ sub, Holds ε s last sub ∧ s.now + wait ≤ sub.nextRenew + phase.lateness ε + spent := by
  cases phase with
  | scheduling => exact absurd trivial hunsent
  | rescheduling => exact absurd trivial hunsent
  | _ => exact Iff.rfl

/-- What holds of the messages if every step is prompt. -/
structure Kept (ε : Time) (s : State) : Prop where
  /-- No message came too late after the one before. -/
  gaps : s.sent.IsChain fun a b => b.time ≤ a.time + a.renewInterval + (7 * ε + millis 1)
  /-- And the last one has not been there for too long. -/
  fresh : ∀ last, s.sent.getLast? = some last → Fresh ε 0 s last s.phase.wait s.phase

theorem Fresh.after {last : Sent} (h : Fresh ε 0 s last s.phase.wait s.phase)
    (helapsed : i.elapsed ≤ s.phase.wait + ε) : Fresh ε ε (s.after i) last 0 s.phase := by
  have hnow : (s.after i).now = s.now + i.elapsed := rfl
  cases hphase : s.phase with
  | scheduling format renewInterval =>
    rw [hphase] at h helapsed
    refine ⟨?_, h.2⟩
    have htime := h.1
    simp only [Phase.wait] at helapsed
    lia
  | rescheduling poll =>
    rw [hphase] at h helapsed
    refine ⟨?_, h.2⟩
    have htime := h.1
    simp only [Phase.wait] at helapsed
    lia
  | idle | subscribing | polling | renewing | checking | arming | receiving =>
    rw [hphase] at h helapsed
    obtain ⟨sub, hsub, htime⟩ := h
    refine ⟨sub, ⟨hsub.subscription, hsub.renewInterval, hsub.nextRenew⟩, ?_⟩
    lia

section Act

variable {t t' : State} {last : Sent}

/-- Another phase with the same subscription, if there is time for it. -/
theorem Fresh.next (h : Fresh ε ε t last 0 t.phase) (hunsent : ¬ t.phase.sent)
    (hunsent' : ¬ t'.phase.sent) (hnow : t'.now = t.now) (hsub : t'.subscription = t.subscription)
    (htime : t.phase.lateness ε + ε + t'.phase.wait ≤ t'.phase.lateness ε) :
    Fresh ε 0 t' last t'.phase.wait t'.phase := by
  obtain ⟨sub, hheld, hlate⟩ := (fresh_iff hunsent).1 h
  refine (fresh_iff hunsent').2 ⟨sub, ⟨hsub.trans hheld.subscription, hheld.renewInterval,
    hheld.nextRenew⟩, ?_⟩
  rw [hnow]
  lia

/-- The subscription was not due, so that the lateness starts again. -/
theorem Fresh.notDue {deadline : Time} (h : Fresh ε ε t last 0 t.phase)
    (hphase : t.phase = .polling deadline)
    (hdue : ∀ sub, t.subscription = some sub → t.now < sub.nextRenew) :
    Fresh ε 0 { t with phase := .checking deadline } last 0 (.checking deadline) := by
  rw [hphase] at h
  obtain ⟨sub, hsub, -⟩ := h
  have hbefore := hdue sub hsub.subscription
  refine ⟨sub, ⟨hsub.subscription, hsub.renewInterval, hsub.nextRenew⟩, ?_⟩
  simp only [Phase.lateness]
  lia

theorem Fresh.arm {deadline untilDeadline wait : Time} (h : Fresh ε ε t last 0 t.phase)
    (hphase : t.phase = .arming deadline untilDeadline)
    (hwait : ∀ sub, t.subscription = some sub → wait ≤ max (sub.nextRenew - t.now) (millis 1)) :
    Fresh ε 0 { t with phase := .receiving deadline wait } last wait
      (.receiving deadline wait) := by
  rw [hphase] at h
  obtain ⟨sub, hsub, htime⟩ := h
  have hmax := hwait sub hsub.subscription
  refine ⟨sub, ⟨hsub.subscription, hsub.renewInterval, hsub.nextRenew⟩, ?_⟩
  simp only [Phase.lateness] at htime ⊢
  lia

theorem Fresh.schedule {format : SubscriptionFormat} {renewInterval : Time}
    (h : Fresh ε ε t last 0 t.phase) (hphase : t.phase = .scheduling format renewInterval)
    (hsub : t'.subscription = some ⟨format, renewInterval, t.now + renewInterval⟩)
    (hnow : t'.now = t.now) : Fresh ε 0 t' last 0 .idle := by
  rw [hphase] at h
  obtain ⟨htime, hinterval⟩ := h
  refine ⟨_, ⟨hsub, hinterval.symm, ?_⟩, ?_⟩
  · simp only
    lia
  · simp only [Phase.lateness, hnow]
    lia

/-- A subscription that has been renewed is renewed after its interval again. -/
theorem Fresh.reschedule {poll : Option Time} (h : Fresh ε ε t last 0 t.phase)
    (hphase : t.phase = .rescheduling poll)
    (hsub : t'.subscription = t.subscription.map (SubscriptionState.reschedule · t.now))
    (hnow : t'.now = t.now) (hunsent : ¬ t'.phase.sent) (hwait : t'.phase.wait = 0) :
    Fresh ε 0 t' last t'.phase.wait t'.phase := by
  rw [hphase] at h
  obtain ⟨htime, sub, hheld, hinterval⟩ := h
  refine (fresh_iff hunsent).2 ⟨sub.reschedule t.now, ⟨?_, hinterval, ?_⟩, ?_⟩
  · rw [hsub, hheld]
    rfl
  · simp only [SubscriptionState.reschedule]
    lia
  · simp only [hwait, hnow, SubscriptionState.reschedule]
    lia

/-- Whatever is sent is at most seven delays and a millisecond late. -/
theorem Fresh.sends (h : Fresh ε ε t last 0 t.phase) (hsending : t.sending ≠ none) :
    t.now ≤ last.time + last.renewInterval + (7 * ε + millis 1) := by
  obtain ⟨sub, hsub, htime⟩ := (fresh_iff (State.unsent_of_sending hsending)).1 h
  have hnext := hsub.nextRenew
  cases hphase : t.phase <;> rw [hphase] at htime <;> simp only [Phase.lateness] at htime <;> lia

theorem fresh_of_sending {format : SubscriptionFormat} {renewInterval : Time} {automatic : Bool}
    {next : Phase} (hsending : t.sending = some (format, renewInterval, automatic, next))
    (hnow : last.time = t.now) (hinterval : last.renewInterval = renewInterval)
    (ht : t'.now = t.now) (hsub : t'.subscription = t.subscription) :
    Fresh ε 0 t' last next.wait next := by
  unfold State.sending at hsending
  cases hphase : t.phase with
  | subscribing f r =>
    rw [hphase] at hsending
    cases hsending
    exact ⟨(ht.trans hnow.symm).le, hinterval⟩
  | renewing poll =>
    rw [hphase] at hsending
    obtain ⟨sub, hheld, heq⟩ := Option.map_eq_some_iff.1 hsending
    cases heq
    exact ⟨(ht.trans hnow.symm).le, sub, hsub.trans hheld, hinterval.symm⟩
  | _ =>
    rw [hphase] at hsending
    cases hsending

/-- A prompt step keeps what is kept. -/
theorem Kept.act (hgaps : t.sent.IsChain fun a b =>
      b.time ≤ a.time + a.renewInterval + (7 * ε + millis 1))
    (hfresh : ∀ last, t.sent.getLast? = some last → Fresh ε ε t last 0 t.phase)
    (hlocalAddr : i.localAddr = .ok ()) (hsent : i.sent = .ok ())
    (hcall : t.phase = .idle → i.call ≠ none) : Kept ε (t.act replyPort i) := by
  have hstep := @stepped replyPort i t
  generalize t.act replyPort i = t' at hstep ⊢
  cases hstep with
  | rest hphase hnone => exact absurd hnone (hcall hphase)
  | ask hphase | poll hphase | askAgain hphase | check deadline hphase | due deadline hphase
  | retry deadline wait hphase | take deadline wait hphase =>
    refine ⟨hgaps, fun last hlast => (hfresh last hlast).next (hphase ▸ id) id rfl rfl ?_⟩
    simp only [hphase, Phase.lateness, Phase.wait, State.returns]
    lia
  | fail result hresult hunsent hcause =>
    refine ⟨hgaps, fun last hlast => (hfresh last hlast).next hunsent id rfl rfl ?_⟩
    obtain ⟨sub, hsub, -⟩ := (fresh_iff hunsent).1 (hfresh last hlast)
    -- A call fails only where it waits, since it can send.
    have hwaits := hcause hlocalAddr hsent (by rw [hsub.subscription]; rfl)
    cases hphase : t.phase <;> rw [hphase] at hwaits <;>
      first
      | exact absurd hwaits id
      | simp only [Phase.lateness, Phase.wait, State.returns]; lia
  | notDue deadline hphase hdue =>
    exact ⟨hgaps, fun last hlast => (hfresh last hlast).notDue hphase hdue⟩
  | arm deadline untilDeadline wait hphase hwait =>
    exact ⟨hgaps, fun last hlast => (hfresh last hlast).arm hphase hwait⟩
  | schedule format renewInterval hphase =>
    exact ⟨hgaps, fun last hlast => (hfresh last hlast).schedule hphase rfl rfl⟩
  | reschedule hphase | repoll deadline hphase =>
    exact ⟨hgaps, fun last hlast => (hfresh last hlast).reschedule hphase rfl rfl id rfl⟩
  | send format renewInterval automatic next hsending =>
    refine ⟨hgaps.append (List.isChain_singleton _) fun a ha b hb => ?_, fun last hl => ?_⟩
    · cases hb
      exact (hfresh a ha).sends (by rw [hsending]; exact Option.some_ne_none _)
    · obtain rfl : _ = last := Option.some.inj ((List.getLast?_concat ..).symm.trans hl)
      exact fresh_of_sending hsending rfl rfl rfl rfl

end Act

theorem Kept.step (h : Kept ε s) (hprompt : Prompt ε s i) : Kept ε (step replyPort s i) :=
  .act h.gaps (fun last hlast => (h.fresh last hlast).after hprompt.elapsed) hprompt.localAddr
    hprompt.sent hprompt.call

theorem Kept.run {inputs : List Input} (h : Kept ε s) (hrun : PromptRun replyPort ε s inputs) :
    Kept ε (run replyPort s inputs) := by
  induction inputs generalizing s with
  | nil => exact h
  | cons i inputs ih => exact ih (h.step hrun.1) hrun.2

/-- A subscription that is kept alive. -/
structure Alive (ε : Time) (s : State) : Prop where
  /-- The next message is sent soon after the interval of the one before it. -/
  gaps : s.sent.IsChain fun a b => b.time ≤ a.time + a.renewInterval + (7 * ε + millis 1)
  /-- The last message is not older either. -/
  last : ∀ last, s.sent.getLast? = some last →
    s.now ≤ last.time + last.renewInterval + (6 * ε + millis 1)
  /-- At the usual interval, the subscription never expires. -/
  expiry : ε ≤ millis 700 → (∀ m ∈ s.sent, m.renewInterval = subscriptionRenewMargin) →
    s.sent.IsChain (fun a b => b.time < a.time + subscriptionExpiry) ∧
      ∀ last, s.sent.getLast? = some last → s.now < last.time + subscriptionExpiry

theorem Kept.last (h : Kept ε s) (last : Sent) (hlast : s.sent.getLast? = some last) :
    s.now ≤ last.time + last.renewInterval + (6 * ε + millis 1) := by
  have hfresh := h.fresh last hlast
  by_cases hsent : s.phase.sent
  · cases hphase : s.phase with
    | scheduling format renewInterval =>
      rw [hphase] at hfresh
      have htime := hfresh.1
      lia
    | rescheduling poll =>
      rw [hphase] at hfresh
      have htime := hfresh.1
      lia
    | _ =>
      rw [hphase] at hsent
      exact absurd hsent id
  · obtain ⟨sub, hsub, htime⟩ := (fresh_iff hsent).1 hfresh
    have hnext := hsub.nextRenew
    cases hphase : s.phase <;> rw [hphase] at htime <;> simp only [Phase.lateness] at htime <;> lia

/-- **A subscription is renewed in time** while its caller keeps polling and every step is
prompt. -/
theorem run_alive {now : Time} {inputs : List Input}
    (hrun : PromptRun replyPort ε (.new now) inputs) :
      Alive ε (run replyPort (.new now) inputs) := by
  have hkept : Kept ε (run replyPort (.new now) inputs) :=
    Kept.run ⟨List.isChain_nil, fun last hlast => by cases hlast⟩ hrun
  refine ⟨hkept.gaps, hkept.last, fun hε hmargin => ⟨?_, fun last hlast => ?_⟩⟩
  · refine hkept.gaps.imp_of_mem_imp fun a b ha _ hgap => ?_
    rw [hmargin a ha] at hgap
    simp only [millis, subscriptionExpiry, subscriptionRenewMargin, seconds] at hε hgap ⊢
    lia
  · have hold := hkept.last last hlast
    rw [hmargin last (List.mem_of_getLast? hlast)] at hold
    simp only [millis, subscriptionExpiry, subscriptionRenewMargin, seconds] at hε hold ⊢
    lia

instance instDecidablePrompt (ε : Time) (s : State) (i : Input) : Decidable (Prompt ε s i) :=
  decidable_of_iff (i.localAddr = .ok () ∧ i.sent = .ok () ∧ (s.phase = .idle → i.call ≠ none) ∧
      i.elapsed ≤ s.phase.wait + ε)
    ⟨fun h => ⟨h.1, h.2.1, h.2.2.1, h.2.2.2⟩, fun h => ⟨h.1, h.2, h.3, h.4⟩⟩

instance instDecidablePromptRun (replyPort : Option UInt16) (ε : Time) :
    (s : State) → (inputs : List Input) → Decidable (PromptRun replyPort ε s inputs)
  | _, [] => isTrue trivial
  | s, i :: inputs =>
    have := instDecidablePromptRun replyPort ε (step replyPort s i) inputs
    inferInstanceAs (Decidable (Prompt ε s i ∧ _))

/-- A step in which nothing goes wrong and nothing is received. -/
def Input.quiet (elapsed : Time) (call : Option Call) : Input :=
  ⟨elapsed, call, .ok (), .ok (), .ok (), .error .timedOut⟩

/-- The caller subscribes and polls for eight seconds, in which nothing happens on the console. -/
def quietPoll : List Input :=
  [.quiet (millis 1) (some (.subscribe .oscNative subscriptionRenewMargin)), .quiet (millis 1) none,
    .quiet (millis 1) none, .quiet (millis 1) (some (.pollEvent (seconds 8))),
    .quiet (millis 1) none,
    .quiet (millis 1) none, .quiet (millis 1) none, .quiet (millis 4996) none,
    .quiet (millis 1) none,
    .quiet (millis 1) none, .quiet (millis 1) none]

theorem run_alive_quietPoll :
    (run (some 40000) (.new 0) quietPoll).sent.map Sent.automatic = [false, true] ∧
      Alive (millis 1) (run (some 40000) (.new 0) quietPoll) :=
  ⟨by decide +kernel, run_alive (by decide +kernel)⟩

end Alive

end Subscription

end Osc

end LibWing
