import LibWing.Console.Reachable

/-!
# Fresh answers

`get_node_data` and `get_node_definition` deliver the pending queue before they read, so they may be
answered by a response that was parsed before they sent their request.

* `Fresh` : the answer was parsed after the request;
* `World.still` : a world in which no time passes;
* `attendedGet_fresh_iff` : an attended get is always answered by a fresh response exactly when no
  response it would accept is queued within its reach;
* `freshData_iff_freshDefinition_iff` : the two gets, in every reachable state.
-/

namespace LibWing

open Stateful

/-- A world in which no time passes and nothing interferes. -/
def World.still : World where
  now _ := 0
  reconnecting _ := false
  write _ := .ok ()

theorem World.still_calm : World.still.Calm := ⟨fun _ => rfl, fun _ => rfl⟩

namespace Console

variable {w : World} {c c' : Console}

/-- The answer to a get made in `c` that buffered `buffered` was parsed after its request: all that
was queued was buffered, and the answer comes from the stream. -/
def Fresh (c : Console) (buffered : List WingResponse) (answer : WingResponse) : Prop :=
  ∃ parsed rest, buffered = c.main.pending ++ parsed ∧
    c.stream.responses = parsed ++ answer :: rest

section AttendedGet

variable {T : Type} {matcher : WingResponse → Except WingResponse T} {request : ConsoleM Unit}

/-- The entries of the pending queue that a get can reach before it gives up. -/
def withinReach (c : Console) : List WingResponse := c.main.pending.take (maxAttendedBuffered + 1)

/-- An answer that was not within reach when the get began is fresh. -/
theorem Answered.fresh {result : T × List WingResponse} (h : Answered matcher c result c')
    (hreach : ∀ r ∈ c.withinReach, matcher r ≠ .ok result.1) :
    ∃ r, matcher r = .ok result.1 ∧ Fresh c result.2 r := by
  obtain ⟨r, hr, ⟨hp, -⟩ | ⟨parsed, hne, hp, -, hs⟩⟩ := h.answer
  · -- An answer from the queue stands right behind the buffered responses.
    have hlen : (result.2 ++ [r]).length ≤ maxAttendedBuffered + 1 := by
      rw [List.length_append, List.length_singleton]
      exact Nat.succ_le_succ h.bounded
    have hmem : r ∈ c.withinReach := by
      rw [withinReach, hp, List.take_append, List.take_of_length_le hlen]
      exact List.mem_append_left _ (List.mem_append_right _ (List.mem_singleton_self r))
    exact absurd hr (hreach r hmem)
  · obtain ⟨parsed', last, rfl⟩ := List.eq_nil_or_concat parsed |>.resolve_left hne
    rw [List.concat_eq_append, ← List.append_assoc] at hp
    rw [List.concat_eq_append, List.append_assoc] at hs
    obtain ⟨hbuf, rfl⟩ := List.append_singleton_inj.mp hp
    exact ⟨r, hr, parsed', c'.stream.responses, hbuf, hs⟩

theorem not_fresh_of_queued {buffered rest : List WingResponse} {queued answer : WingResponse}
    (h : c.main.pending = buffered ++ queued :: rest) : ¬ Fresh c buffered answer := by
  rintro ⟨parsed, -, hbuf, -⟩
  have hlen := congrArg List.length hbuf
  rw [h, List.length_append, List.length_append, List.length_cons] at hlen
  omega

theorem exists_first_match {r : WingResponse} {m : T} (hmem : r ∈ c.withinReach)
    (hr : matcher r = .ok m) : ∃ before first rest matched,
      c.main.pending = before ++ first :: rest ∧ before.length ≤ maxAttendedBuffered ∧
      matcher first = .ok matched ∧ ∀ x ∈ before, ∀ m, matcher x ≠ .ok m := by
  let accepts : WingResponse → Bool := fun x => (matcher x).isOk
  have haccepts : ∀ {x}, accepts x = false → ∀ m, matcher x ≠ .ok m := by
    intro x hx m hm
    simp [accepts, hm, Except.isOk, Except.toBool] at hx
  have hsome : (c.withinReach.find? accepts).isSome := by
    rw [List.find?_isSome]
    exact ⟨r, hmem, by simp [accepts, hr, Except.isOk, Except.toBool]⟩
  obtain ⟨first, hfind⟩ := Option.isSome_iff_exists.mp hsome
  obtain ⟨hfirst, before, after, htake, hbefore⟩ := List.find?_eq_some_iff_append.mp hfind
  obtain ⟨matched, hmatched⟩ : ∃ matched, matcher first = .ok matched := by
    cases hm : matcher first with
    | ok matched => exact ⟨matched, rfl⟩
    | error e => simp [accepts, hm, Except.isOk, Except.toBool] at hfirst
  have hlen : before.length ≤ maxAttendedBuffered := by
    have hle : c.withinReach.length ≤ maxAttendedBuffered + 1 := List.length_take_le _ _
    rw [htake, List.length_append, List.length_cons] at hle
    omega
  refine ⟨before, first, after ++ c.main.pending.drop (maxAttendedBuffered + 1), matched, ?_, hlen,
    hmatched, fun x hx => haccepts (by simpa using hbefore x hx)⟩
  rw [← List.cons_append, ← List.append_assoc, ← htake, withinReach, List.take_append_drop]

theorem readLocked_queued (hw : w.Calm) (hc : Ready c) {r : WingResponse} {rest : List WingResponse}
    (hp : c.main.pending = r :: rest) :
    Triple (· = c) (readLocked w) (fun r' c' => r' = r ∧ c'.main.pending = rest ∧ Ready c')
      (fun _ _ => False) := by
  refine (readLocked_spec hc.capture hc.streamTainted).conseq (fun _ h => h) (fun r' c' h => ?_)
    fun e c' h => ?_
  · rcases h.source with ⟨hcons, -⟩ | ⟨hnil, -⟩
    · rw [hp] at hcons
      obtain ⟨rfl, rfl⟩ := List.cons.inj hcons
      exact ⟨rfl, rfl, hc.of_session h.session⟩
    · rw [hp] at hnil
      cases hnil
  · have hnil := h.2 hw
    rw [hp] at hnil
    cases hnil

/-- In a world in which no time passes, an attended read is answered by the first queued response
that it accepts. -/
theorem attendedLoop_queued (hm : Returns matcher) (deadline : Time) (hdeadline : 0 < deadline)
    {first : WingResponse} {matched : T} (hfirst : matcher first = .ok matched)
    {rest : List WingResponse} (before : List WingResponse) (hc : Ready c)
    (hp : c.main.pending = before ++ first :: rest)
    (hbefore : ∀ x ∈ before, ∀ m, matcher x ≠ .ok m) (fuel : ℕ) (buffered : List WingResponse)
    (hfuel : before.length < fuel) (hlen : buffered.length + before.length ≤ maxAttendedBuffered) :
    Triple (· = c) (attendedLoop .still deadline matcher fuel buffered)
      (fun result _ => result = (.ok matched, buffered ++ before)) (fun _ _ => False) := by
  induction before generalizing c fuel buffered with
  | nil =>
    obtain ⟨fuel, rfl⟩ := Nat.exists_eq_succ_of_ne_zero (Nat.ne_of_gt hfuel)
    refine Triple.bind_attempt (readLocked_queued World.still_calm hc hp) (fun r => ?_)
      fun e c' h => h.elim
    rintro c' ⟨rfl, -⟩
    simp only [hfirst, List.append_nil]
    rfl
  | cons x before ih =>
    obtain ⟨fuel, rfl⟩ := Nat.exists_eq_succ_of_ne_zero (Nat.ne_of_gt (Nat.zero_lt_of_lt hfuel))
    refine Triple.bind_attempt (readLocked_queued World.still_calm hc hp) (fun r => ?_)
      fun e c' h => h.elim
    rintro c' ⟨rfl, hp', hc'⟩
    rw [List.length_cons] at hfuel hlen
    cases hr : matcher r with
    | ok m => exact absurd hr (hbefore r List.mem_cons_self m)
    | error unrelated =>
      have hun := hm r unrelated hr
      subst hun
      have hroom : ¬ buffered.length ≥ maxAttendedBuffered := by omega
      simp only [hr, hroom, ↓reduceIte]
      -- The clock stands still, so the loop goes on.
      refine Triple.bind (P := (· = c')) (Q := fun now c₁ => now = 0 ∧ Ready c₁ ∧
        c₁.main.pending = before ++ first :: rest) ?_ (fun now => ?_) c' rfl
      · rintro c₁ rfl
        exact ⟨rfl, ⟨hc'.capture, hc'.streamTainted⟩, hp'⟩
      · rintro c₁ ⟨rfl, hc₁, hp₁⟩
        rw [if_neg (Nat.not_le_of_lt hdeadline), show buffered ++ unrelated :: before =
          buffered ++ [unrelated] ++ before by simp]
        refine ih hc₁ hp₁ (fun y hy => hbefore y (List.mem_cons_of_mem _ hy)) fuel
          (buffered ++ [unrelated]) (by omega) ?_ c₁ rfl
        rw [List.length_append, List.length_singleton]
        omega

/-- In a world in which no time passes, a get is answered by the first queued response that it
accepts. -/
theorem attendedGet_queued (hm : Returns matcher) (hc : Ready c)
    (hreq : Triple (· = c) request (fun _ c' => Ticked c c') (fun _ _ => False))
    {before rest : List WingResponse} {first : WingResponse} {matched : T}
    (hp : c.main.pending = before ++ first :: rest) (hlen : before.length ≤ maxAttendedBuffered)
    (hfirst : matcher first = .ok matched) (hbefore : ∀ x ∈ before, ∀ m, matcher x ≠ .ok m) :
    ∃ c', attendedGet .still request matcher 1 c = .ok (matched, before) c' := by
  have hrun : Triple (· = c) (attendedGet .still request matcher 1)
      (fun result _ => result = (matched, before)) (fun _ _ => False) := by
    refine Triple.bind hreq fun _ => Triple.bind (Q := fun now c₁ => now = 0 ∧ Ticked c c₁) ?_
      fun now => ?_
    · exact fun c₁ h => ⟨rfl, h.trans ⟨⟨⟨rfl, rfl, rfl, rfl, rfl⟩, rfl, rfl, rfl, rfl⟩, rfl, rfl⟩⟩
    · rintro c₁ ⟨rfl, htick⟩
      let c₂ : Console := { c₁ with main := { c₁.main with opDeadline := some (0 + 1) } }
      have hready : Ready c₂ := ⟨htick.capture.trans hc.capture,
        htick.streamTainted.trans hc.streamTainted⟩
      have hloop := attendedLoop_queued hm (0 + 1) Nat.one_pos hfirst before hready
        (htick.pending.trans hp) hbefore (maxAttendedBuffered + 1) [] (Nat.lt_succ_of_le hlen)
        (by simpa using hlen)
      have huntil : Triple (· = c₂) (attendedReadUntil .still (0 + 1) matcher)
          (fun result _ => result = (matched, before)) (fun _ _ => False) := by
        refine Triple.bind hloop fun result => ?_
        rintro c' rfl
        rfl
      exact Triple.bind (P := (· = c₁)) (Q := fun _ c' => c' = c₂) (fun s hs => by rw [hs]; rfl)
        (fun _ => Triple.attempt_finally huntil (fun _ _ h => h) fun _ _ h => h) c₁ rfl
  have hresult := hrun c rfl
  cases hget : attendedGet .still request matcher 1 c with
  | ok result c' =>
    rw [hget] at hresult
    exact ⟨c', by rw [hresult]⟩
  | error e c' =>
    rw [hget] at hresult
    exact hresult.elim

theorem attendedGet_tainted (matcher : WingResponse → Except WingResponse T)
    (ht : c.streamTainted = true) (message : List UInt8) (timeout : Time) :
    Triple (· = c) (attendedGet w (do ensureStreamUsable; writeAll w message) matcher timeout)
      (fun _ _ => False) (fun _ _ => True) := by
  have hrequest : Triple (· = c) (do ensureStreamUsable; writeAll w message) (fun _ _ => False)
      (fun _ _ => True) := by
    rintro c rfl
    rw [request_tainted ht]
    trivial
  exact Triple.bind hrequest fun _ _ h => False.elim h

/-- **When a get is answered by a fresh response**, whatever the world and its timeout: when the
stream is tainted, so that there is no answer, or no response that it accepts is within reach. -/
theorem attendedGet_fresh_iff (hm : Returns matcher) (hcap : c.main.capture = none)
    (answer : T → WingResponse) (hanswer : ∀ {r m}, matcher r = .ok m → r = answer m)
    (message : List UInt8) :
    (∀ w timeout matched buffered c', attendedGet w (do ensureStreamUsable; writeAll w message)
        matcher timeout c = .ok (matched, buffered) c' → Fresh c buffered (answer matched)) ↔
      c.streamTainted = true ∨ ∀ r ∈ c.withinReach, ∀ m, matcher r ≠ .ok m := by
  by_cases ht : c.streamTainted = true
  · refine ⟨fun _ => Or.inl ht, fun _ w timeout matched buffered c' hget => ?_⟩
    have hfail := attendedGet_tainted (w := w) matcher ht message timeout c rfl
    rw [hget] at hfail
    exact hfail.elim
  · have hc : Ready c := ⟨hcap, Bool.eq_false_iff.mpr ht⟩
    constructor
    · intro hfresh
      refine Or.inr fun r hmem m hr => ?_
      obtain ⟨before, first, rest, matched, hp, hlen, hfirst, hbefore⟩ := exists_first_match hmem hr
      have hreq := (request_spec (w := .still) hc message).conseq (E := fun _ _ => False)
        (fun _ h => h) (fun _ _ h => h) fun _ _ h => h.2.1 World.still_calm
      obtain ⟨c', hget⟩ := attendedGet_queued hm hc hreq hp hlen hfirst hbefore
      exact not_fresh_of_queued hp (hfresh _ _ _ _ _ hget)
    · rintro (htrue | hreach) w timeout matched buffered c' hget
      · exact absurd htrue ht
      · have hspec := attendedGet_spec (w := w) hm hc (request_spec hc message) timeout c rfl
        rw [hget] at hspec
        obtain ⟨r, hr, hfresh⟩ := hspec.2.fresh fun r hmem => hreach r hmem _
        exact hanswer hr ▸ hfresh

end AttendedGet

/-- Whatever the world and the timeout, `get_node_data(id)` is answered by a fresh value. -/
def FreshData (c : Console) (id : Int32) : Prop :=
  ∀ w timeout data buffered c', getNodeData w id timeout c = .ok (data, buffered) c' →
    Fresh c buffered (.nodeData id data)

/-- Whatever the world and the timeout, `get_node_definition(id)` is answered by a fresh
definition. -/
def FreshDefinition (c : Console) (id : Int32) : Prop :=
  ∀ w timeout d buffered c', getNodeDefinition w id timeout c = .ok (d, buffered) c' →
    Fresh c buffered (.nodeDef d)

/-- No value of the node is queued within reach of a get. -/
def NoValueQueued (c : Console) (id : Int32) : Prop :=
  ∀ data, .nodeData id data ∉ c.main.pending.take (maxAttendedBuffered + 1)

/-- No definition of the node is queued within reach of a get. -/
def NoDefinitionQueued (c : Console) (id : Int32) : Prop :=
  ∀ d : WingNodeDef, d.id = id → .nodeDef d ∉ c.main.pending.take (maxAttendedBuffered + 1)

theorem noValueQueued_iff (id : Int32) :
    NoValueQueued c id ↔ ∀ r ∈ c.withinReach, ∀ m, dataMatcher id r ≠ .ok m := by
  constructor
  · intro h r hmem m hr
    rw [dataMatcher_ok hr] at hmem
    exact h m hmem
  · intro h data hmem
    exact h _ hmem data (by simp [dataMatcher])

theorem noDefinitionQueued_iff (id : Int32) :
    NoDefinitionQueued c id ↔ ∀ r ∈ c.withinReach, ∀ m, definitionMatcher id r ≠ .ok m := by
  constructor
  · intro h r hmem m hr
    have hid : m.id = id := by
      rw [definitionMatcher_ok hr] at hr
      simp only [definitionMatcher] at hr
      split_ifs at hr with hid
      exact hid
    rw [definitionMatcher_ok hr] at hmem
    exact h m hid hmem
  · intro h d hid hmem
    exact h _ hmem d (by simp [definitionMatcher, hid])

/-- **When a get is answered after it is asked.**  In every reachable state the value or definition
that a get returns was parsed after its request, exactly when the stream is tainted, so that nothing
is returned, or none for its node is queued within its reach. -/
theorem freshData_iff_freshDefinition_iff (h : Reachable c) (id : Int32) :
    (FreshData c id ↔ c.streamTainted = true ∨ NoValueQueued c id) ∧
      (FreshDefinition c id ↔ c.streamTainted = true ∨ NoDefinitionQueued c id) := by
  rw [noValueQueued_iff, noDefinitionQueued_iff]
  exact ⟨attendedGet_fresh_iff (returns_dataMatcher id) h.capture (.nodeData id) dataMatcher_ok
      (requestNodeDataMessage id),
    attendedGet_fresh_iff (returns_definitionMatcher id) h.capture .nodeDef definitionMatcher_ok
      (requestNodeDefinitionMessage id)⟩

/-- A console whose get for node 5 ran out of time after it had read the value 9 of node 7; a newer
value is on its way. -/
def staleConsole : Console :=
  (outcome ((ReaderCall.deliver (.getNodeData 5 12)).run .steady) (.new 0
    [.read (.ok [0xd7, 0, 0, 0, 7, 9]), .read (.error .wouldBlock), .read (.error .wouldBlock),
      .read (.ok [0xd7, 0, 0, 0, 7, 3])])).2

theorem staleConsole_reachable : Reachable staleConsole :=
  .call .steady (.deliver (.getNodeData 5 12)) (.new 0 _)

theorem staleConsole_pending : staleConsole.main.pending = [.nodeData 7 (.withI32 9)] := by
  decide +kernel

/-- A get for node 7 returns the queued value, which is older than its request. -/
theorem staleConsole_not_fresh :
    Reachable staleConsole ∧ staleConsole.stream.responses = [.nodeData 7 (.withI32 3)] ∧
      (outcome (getNodeData .steady 7 99) staleConsole).1 = .ok (.withI32 9, []) ∧
      ¬ FreshData staleConsole 7 := by
  have hget : (outcome (getNodeData .steady 7 99) staleConsole).1 = .ok (.withI32 9, []) := by
    decide +kernel
  refine ⟨staleConsole_reachable, by decide +kernel, hget, fun hfresh => ?_⟩
  exact not_fresh_of_queued staleConsole_pending
    (hfresh .steady 99 (.withI32 9) [] _ (eq_ok_of_outcome hget))

/-- The queued value is no obstacle to the gets for another node. -/
theorem staleConsole_fresh_five :
    Reachable staleConsole ∧ FreshData staleConsole 5 ∧ FreshDefinition staleConsole 5 := by
  have h := freshData_iff_freshDefinition_iff staleConsole_reachable 5
  refine ⟨staleConsole_reachable, h.1.mpr (Or.inr fun data hmem => ?_),
    h.2.mpr (Or.inr fun d hid hmem => ?_)⟩
  · have hmem' := List.mem_of_mem_take hmem
    rw [staleConsole_pending] at hmem'
    simp at hmem'
  · have hmem' := List.mem_of_mem_take hmem
    rw [staleConsole_pending] at hmem'
    simp at hmem'

end Console

end LibWing
