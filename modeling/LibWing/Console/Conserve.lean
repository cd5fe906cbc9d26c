import LibWing.Console.Attended
import LibWing.Console.Replay

/-!
# Attended gets lose nothing

A response is delivered by a call, waits in the pending queue, or is still to be parsed.  Calls move
responses from one of these places to the next, and a get that runs out of time moves what it has
buffered back, but the whole sequence stays what it was.

* `Stream.responses` : the responses of a stream, in order;
* `Console.remaining` : the responses a console has still to deliver;
* `Consumed` : responses were taken, first from the pending queue and then from the stream;
* `attendedLoop_spec`, `attendedGet_spec` : what a get takes and what it hands back;
* `runSession_conserved` : the responses delivered so far, followed by those that remain, are the
  responses of the stream.
-/

namespace LibWing

open Stateful

/-! ### The responses of a stream -/

namespace Stream

variable {s s' : Stream}

theorem readInner_shrinks (fuel : ℕ) (h : s.symbols ≠ []) :
    Triple (· = s) (source.readInner (fuel + 1))
      (fun _ s' => s'.symbols.length < s.symbols.length)
      (fun _ s' => s'.symbols.length < s.symbols.length) := by
  let P : Stream → Prop := fun s' => s'.symbols.length < s.symbols.length
  have hkeep : Source.Related (fun {_} x (_ : EStateM Error Stream _) => Keeps P x)
      source source :=
    { toCongruence := Keeps.congruence P
      invalidData := Keeps.throw _
      decodeNext := by
        intro s' hs'
        simp only [source, next]
        cases hsym : s'.symbols with
        | nil => exact hs'
        | cons head rest =>
          have hlt : rest.length < s.symbols.length := by
            refine Nat.lt_trans ?_ hs'
            rw [hsym]
            exact Nat.lt_succ_self _
          cases head with
          | error e => exact hlt
          | ok decoded => split_ifs <;> exact hlt
      currentNodeId := fun _ h => h
      setCurrentNodeId := fun _ _ h => h }
  have hnext : Triple (· = s) source.decodeNext (fun _ => P) (fun _ => P) := by
    rintro s rfl
    simp only [source, next]
    cases hsym : s.symbols with
    | nil => exact absurd hsym h
    | cons head rest =>
      have hlt : rest.length < s.symbols.length := by
        rw [hsym]
        exact Nat.lt_succ_self _
      cases head with
      | error e => exact hlt
      | ok decoded => split_ifs <;> exact hlt
  refine Triple.bind (hnext.bind fun decoded => hkeep.token decoded.2) fun response => ?_
  cases response with
  | some r => exact Triple.pure fun _ h => h
  | none => exact hkeep.readInner fuel

/-- A read takes at least one symbol off a stream that has not ended, whether it succeeds or not. -/
theorem read_shrinks {r : Except Error WingResponse} (hread : outcome Stream.read s = (r, s'))
    (h : s.symbols ≠ []) : s'.symbols.length < s.symbols.length := by
  have hrun := readInner_shrinks (s := { s with captured := 0 }) maxNativeResponseBytes h _ rfl
  rw [outcome, read] at hread
  cases hr : source.readInner (maxNativeResponseBytes + 1) { s with captured := 0 } with
  | ok r₁ s₁ =>
    rw [hr] at hrun hread
    cases hread
    exact hrun
  | error e s₁ =>
    rw [hr] at hrun hread
    cases hread
    exact hrun

/-- A stream that has ended has no responses. -/
theorem read_ended (h : s.symbols = []) :
    ∃ s', outcome Stream.read s = (.error .connectionError, s') ∧ s'.symbols = [] := by
  obtain ⟨symbols, nodeId, captured⟩ := s
  subst h
  exact ⟨⟨[], nodeId, 0⟩, rfl, rfl⟩

/-- The responses of the first `n` reads. -/
def responsesOf : ℕ → Stream → List WingResponse
  | 0, _ => []
  | n + 1, s =>
    match outcome Stream.read s with
    | (.ok r, s') => r :: responsesOf n s'
    | (.error _, s') => responsesOf n s'

/-- The responses of a stream.  Every read takes at least one symbol, so there are no more reads
than symbols. -/
def responses (s : Stream) : List WingResponse := responsesOf s.symbols.length s

theorem responsesOf_ended (n : ℕ) (h : s.symbols = []) : responsesOf n s = [] := by
  induction n generalizing s with
  | zero => rfl
  | succ n ih =>
    obtain ⟨s', hread, hend⟩ := read_ended h
    rw [responsesOf, hread]
    exact ih hend

/-- Reading on after the end finds nothing more. -/
theorem responsesOf_eq {n m : ℕ} (hn : s.symbols.length ≤ n) (hm : s.symbols.length ≤ m) :
    responsesOf n s = responsesOf m s := by
  induction n generalizing s m with
  | zero =>
    have hend : s.symbols = [] := List.eq_nil_of_length_eq_zero (Nat.le_zero.mp hn)
    rw [responsesOf_ended _ hend, responsesOf_ended _ hend]
  | succ n ih =>
    by_cases hend : s.symbols = []
    · rw [responsesOf_ended _ hend, responsesOf_ended _ hend]
    · cases m with
      | zero => exact absurd (List.eq_nil_of_length_eq_zero (Nat.le_zero.mp hm)) hend
      | succ m =>
        rw [responsesOf, responsesOf]
        rcases hread : outcome Stream.read s with ⟨r | r, s'⟩ <;>
          have hlt := read_shrinks hread hend
        · exact ih (by omega) (by omega)
        · exact congrArg (r :: ·) (ih (by omega) (by omega))

/-- A read takes the first response of the stream. -/
theorem responses_of_read {r : WingResponse} (h : s.read = .ok r s') :
    s.responses = r :: s'.responses := by
  have ho : outcome Stream.read s = (.ok r, s') := outcome_ok h
  have hne : s.symbols ≠ [] := by
    intro hend
    obtain ⟨s'', hread, -⟩ := read_ended hend
    rw [ho] at hread
    cases hread
  have hlt := read_shrinks ho hne
  obtain ⟨n, hn⟩ := Nat.exists_eq_succ_of_ne_zero (Nat.ne_of_gt (Nat.zero_lt_of_lt hlt))
  rw [responses, hn, responsesOf, ho]
  exact congrArg (r :: ·) (responsesOf_eq (by rw [hn] at hlt; exact Nat.le_of_lt_succ hlt) le_rfl)

end Stream

namespace Console

variable {w : World} {c c' c₁ c₂ : Console}

/-! ### Taking responses -/

/-- The responses a console has still to deliver: the queued ones, then those still to be parsed. -/
def remaining (c : Console) : List WingResponse := c.main.pending ++ c.stream.responses

/-- The responses `rs` were taken, first from the pending queue and then from the stream. -/
def Consumed (c : Console) (rs : List WingResponse) (c' : Console) : Prop :=
  (c.main.pending = rs ++ c'.main.pending ∧ c'.stream = c.stream) ∨
    ∃ parsed, parsed ≠ [] ∧ rs = c.main.pending ++ parsed ∧ c'.main.pending = [] ∧
      c.stream.responses = parsed ++ c'.stream.responses

theorem Consumed.refl (c : Console) : Consumed c [] c := Or.inl ⟨rfl, rfl⟩

/-- Taking responses leaves the others, in order. -/
theorem Consumed.remaining {rs : List WingResponse} (h : Consumed c rs c') :
    c.remaining = rs ++ c'.remaining := by
  rcases h with ⟨hp, hs⟩ | ⟨parsed, -, rfl, hp', hs⟩
  · rw [Console.remaining, Console.remaining, hp, hs, List.append_assoc]
  · rw [Console.remaining, Console.remaining, hp', hs, List.nil_append, List.append_assoc]

/-- Taking one more response. -/
theorem Consumed.deliver {rs : List WingResponse} {r : WingResponse} (h : Consumed c rs c₁)
    (hd : Delivered c₁ r c₂) : Consumed c (rs ++ [r]) c₂ := by
  rcases hd.source with ⟨hp₁, hs₁⟩ | ⟨hp₁, hp₂, hread⟩
  · rcases h with ⟨hp, hs⟩ | ⟨parsed, -, -, hp, -⟩
    · refine Or.inl ⟨?_, hs₁.trans hs⟩
      rw [hp, hp₁, List.append_assoc]
      rfl
    · rw [hp₁] at hp
      cases hp
  · have hresp := Stream.responses_of_read hread
    rcases h with ⟨hp, hs⟩ | ⟨parsed, -, rfl, -, hs⟩
    · refine Or.inr ⟨[r], List.cons_ne_nil _ _, ?_, hp₂, ?_⟩
      · rw [hp, hp₁, List.append_nil]
      · rw [← hs, hresp]
        rfl
    · refine Or.inr ⟨parsed ++ [r], ?_, ?_, hp₂, ?_⟩
      · exact List.append_ne_nil_of_right_ne_nil _ (List.cons_ne_nil _ _)
      · rw [List.append_assoc]
      · rw [hs, hresp, List.append_assoc]
        rfl

theorem Consumed.ticked {rs : List WingResponse} (h : Consumed c rs c₁) (ht : Ticked c₁ c₂) :
    Consumed c rs c₂ := by
  rw [Consumed, ht.stream, ht.pending]
  exact h

/-- A console that can be read: no raw capture is active and the stream is not tainted. -/
structure Ready (c : Console) : Prop where
  /-- No raw capture is going on. -/
  capture : c.main.capture = none
  /-- The stream is not tainted. -/
  streamTainted : c.streamTainted = false

theorem Ready.of_session (h : Ready c) (hs : SameSession c c') : Ready c' :=
  ⟨hs.capture.trans h.capture, hs.streamTainted.trans h.streamTainted⟩

/-! ### An attended read -/

section AttendedRead

variable {T : Type} {matcher : WingResponse → Except WingResponse T}

/-- A matcher hands the responses it does not match back. -/
def Returns (matcher : WingResponse → Except WingResponse T) : Prop :=
  ∀ r unrelated, matcher r = .error unrelated → unrelated = r

theorem returns_dataMatcher (id : Int32) : Returns (dataMatcher id) := by
  intro r unrelated h
  cases r with
  | nodeData rid data =>
    simp only [dataMatcher] at h
    split_ifs at h
    exact (Except.error.inj h).symm
  | requestEnd => exact (Except.error.inj h).symm
  | nodeDef d => exact (Except.error.inj h).symm

theorem returns_definitionMatcher (id : Int32) : Returns (definitionMatcher id) := by
  intro r unrelated h
  cases r with
  | nodeDef d =>
    simp only [definitionMatcher] at h
    split_ifs at h
    exact (Except.error.inj h).symm
  | requestEnd => exact (Except.error.inj h).symm
  | nodeData rid data => exact (Except.error.inj h).symm

/-- What a matched get has taken since `c`: unrelated responses, not too many of them, and the
answer. -/
structure Answered (matcher : WingResponse → Except WingResponse T) (c : Console)
    (result : T × List WingResponse) (c' : Console) : Prop where
  /-- The responses that were set aside do not match. -/
  unrelated : ∀ r ∈ result.2, matcher r = .error r
  /-- They are not too many. -/
  bounded : result.2.length ≤ maxAttendedBuffered
  /-- The next one matches, and all were taken off the stream. -/
  answer : ∃ r, matcher r = .ok result.1 ∧ Consumed c (result.2 ++ [r]) c'

/-- What the loop of an attended read has taken when it ends. -/
def LoopPost (matcher : WingResponse → Except WingResponse T) (c : Console) :
    Except Error T × List WingResponse → Console → Prop
  | (.ok matched, buffered), c' => Answered matcher c (matched, buffered) c'
  | (.error e, buffered), c' => e = .timeout → Consumed c buffered c'

/-- The loop of an attended read takes what it buffers, and the answer. -/
theorem attendedLoop_spec (hm : Returns matcher) (hc : Ready c) (deadline : Time) (fuel : ℕ)
    (buffered : List WingResponse) (hb : ∀ r ∈ buffered, matcher r = .error r)
    (hlen : buffered.length ≤ maxAttendedBuffered) :
    Triple (fun c₁ => SameSession c c₁ ∧ Consumed c buffered c₁)
      (attendedLoop w deadline matcher fuel buffered)
      (fun result c' => SameSession c c' ∧ LoopPost matcher c result c') (fun _ _ => False) := by
  induction fuel generalizing buffered with
  | zero => exact Triple.pure fun c' h => ⟨h.1, nofun⟩
  | succ fuel ih =>
    rintro c₁ ⟨hs, hcons⟩
    have hready := hc.of_session hs
    refine Triple.bind_attempt (readLocked_spec hready.capture hready.streamTainted)
      (fun r => ?_) (fun e => ?_) c₁ rfl
    · cases hr : matcher r with
      | ok matched =>
        simp only [hr]
        refine Triple.pure fun c' hd => ⟨hs.trans hd.session, hb, hlen, r, hr, hcons.deliver hd⟩
      | error unrelated =>
        have hun := hm r unrelated hr
        subst hun
        simp only [hr]
        split_ifs with hfull
        · exact Triple.pure fun c' hd => ⟨hs.trans hd.session, nofun⟩
        · -- The response is buffered; the clock decides whether to go on.
          have hb' : ∀ r ∈ buffered ++ [unrelated], matcher r = .error r := by
            intro r hmem
            rcases List.mem_append.mp hmem with hmem | hmem
            · exact hb r hmem
            · rw [List.mem_singleton.mp hmem]
              exact hr
          have hlen' : (buffered ++ [unrelated]).length ≤ maxAttendedBuffered := by
            rw [List.length_append, List.length_singleton]
            omega
          have hnow : Triple (Delivered c₁ unrelated) (instantNow w)
              (fun _ c' => SameSession c c' ∧ Consumed c (buffered ++ [unrelated]) c')
              (fun _ _ => False) := by
            intro c₂ hd
            have htick := instantNow_spec (w := w) c₂ (Ticked.refl c₂)
            exact ⟨hs.trans (hd.session.trans htick.toSameFrame.sameCall.toSameSession),
              (hcons.deliver hd).ticked htick⟩
          refine Triple.bind hnow fun now => ?_
          split_ifs
          · exact Triple.pure fun c' h => ⟨h.1, fun _ => h.2⟩
          · exact ih (buffered ++ [unrelated]) hb' hlen'
    · refine Triple.pure fun c' h => ⟨hs.trans h.1.call.toSameSession, fun he => ?_⟩
      rcases h.1.cause with ⟨-, -, hsame⟩ | ⟨hne, -⟩
      · rw [Consumed, hsame, h.1.call.pending]
        exact hcons
      · exact absurd he hne

theorem attendedReadUntil_spec (hm : Returns matcher) (hc : Ready c) (deadline : Time) :
    Triple (· = c) (attendedReadUntil w deadline matcher)
      (fun result c' => SameSession c c' ∧ Answered matcher c result c')
      (fun e c' => SameSession c c' ∧ (e = .timeout → c'.remaining = c.remaining)) := by
  have hloop := attendedLoop_spec (w := w) hm hc deadline (maxAttendedBuffered + 1) []
    (by simp) (Nat.zero_le _)
  refine Triple.bind (hloop.conseq ?_ (fun _ _ h => h) fun _ _ h => h.elim)
    fun result => ?_
  · rintro c' rfl
    exact ⟨⟨rfl, rfl, rfl⟩, Consumed.refl c'⟩
  · obtain ⟨result, buffered⟩ := result
    cases result with
    | ok matched => exact Triple.pure fun c' h => h
    | error e =>
      by_cases he : e = .timeout
      · subst he
        rintro c' ⟨hs, hpost⟩
        refine ⟨hs.trans ⟨rfl, rfl, rfl⟩, fun _ => ?_⟩
        have htaken := (hpost rfl).remaining
        rw [htaken, remaining, remaining, ← List.append_assoc]
        rfl
      · cases e
        case timeout => exact absurd rfl he
        all_goals exact Triple.throw fun c' h => ⟨h.1, fun ht => absurd ht he⟩

/-- **A get**, whatever its request: it takes what it buffers and the answer, or it runs out of time
and takes nothing. -/
theorem attendedGet_spec {request : ConsoleM Unit} (hm : Returns matcher) (hc : Ready c)
    (hreq : Triple (· = c) request (fun _ c' => Ticked c c')
      (fun e c' => Ticked c c' ∧ ¬ w.Calm ∧ e ≠ .timeout)) (timeout : Time) :
    Triple (· = c) (attendedGet w request matcher timeout)
      (fun result c' => Ready c' ∧ Answered matcher c result c')
      (fun e c' => Ready c' ∧ (e = .timeout → c'.remaining = c.remaining)) := by
  have hready : ∀ {c'}, Ticked c c' → Ready c' := fun h =>
    hc.of_session h.toSameFrame.sameCall.toSameSession
  have hreq' := hreq.conseq (P := (· = c)) (E := fun e c' =>
    Ready c' ∧ (e = .timeout → c'.remaining = c.remaining)) (fun _ h => h) (fun _ _ h => h)
    fun e c' h => ⟨hready h.1, fun he => absurd he h.2.2⟩
  refine Triple.bind hreq' fun _ => Triple.bind
    (instantNow_spec.conseq (fun _ h => h) (fun _ _ h => h) fun _ _ h => h.elim) fun now => ?_
  intro c₁ htick
  -- Between the two changes of the deadline nothing but the deadline differs from `c₁`.
  let c₂ : Console := { c₁ with main := { c₁.main with opDeadline := some (now + timeout) } }
  have hread := attendedReadUntil_spec (w := w) (c := c₂) hm
    ⟨(hready htick).capture, (hready htick).streamTainted⟩ (now + timeout)
  have hafter : ∀ {c'}, SameSession c₂ c' →
      Ready { c' with main := { c'.main with opDeadline := none } } := fun hs =>
    ⟨hs.capture.trans (hready htick).capture, hs.streamTainted.trans (hready htick).streamTainted⟩
  have hpending : c₂.main.pending = c.main.pending := htick.pending
  have hstream : c₂.stream = c.stream := htick.stream
  refine Triple.bind (P := (· = c₁)) (Q := fun _ c' => c' = c₂) (fun s hs => by rw [hs]; rfl)
    (fun _ => Triple.attempt_finally hread ?_ ?_) c₁ rfl
  · rintro result c' ⟨hs, hans⟩
    obtain ⟨r, hr, hcons⟩ := hans.answer
    refine ⟨hafter hs, hans.unrelated, hans.bounded, r, hr, ?_⟩
    rw [Consumed, hpending, hstream] at hcons
    exact hcons
  · rintro e c' ⟨hs, htime⟩
    refine ⟨hafter hs, fun he => ?_⟩
    have hrem := htime he
    rw [remaining, remaining, hpending, hstream] at hrem
    exact hrem

end AttendedRead

/-- A request on a stream that is not tainted. -/
theorem request_spec (hc : Ready c) (message : List UInt8) :
    Triple (· = c) (do ensureStreamUsable; writeAll w message) (fun _ c' => Ticked c c')
      (fun e c' => Ticked c c' ∧ ¬ w.Calm ∧ e ≠ .timeout) := by
  refine Triple.bind (Q := fun _ c' => Ticked c c') (Triple.bind_get fun s hs => ?_) fun _ => ?_
  · rw [hs, hc.streamTainted]
    exact Triple.pure fun c' h => h ▸ Ticked.refl c
  · exact writeAll_spec message

theorem getNodeData_spec (hc : Ready c) (id : Int32) (timeout : Time) :
    Triple (· = c) (getNodeData w id timeout)
      (fun result c' => Ready c' ∧ Answered (dataMatcher id) c result c')
      (fun e c' => Ready c' ∧ (e = .timeout → c'.remaining = c.remaining)) :=
  attendedGet_spec (returns_dataMatcher id) hc (request_spec hc _) timeout

theorem getNodeDefinition_spec (hc : Ready c) (id : Int32) (timeout : Time) :
    Triple (· = c) (getNodeDefinition w id timeout)
      (fun result c' => Ready c' ∧ Answered (definitionMatcher id) c result c')
      (fun e c' => Ready c' ∧ (e = .timeout → c'.remaining = c.remaining)) :=
  attendedGet_spec (returns_definitionMatcher id) hc (request_spec hc _) timeout

theorem dataMatcher_ok {id : Int32} {r : WingResponse} {data : WingNodeData}
    (h : dataMatcher id r = .ok data) : r = .nodeData id data := by
  cases r with
  | nodeData rid d =>
    simp only [dataMatcher] at h
    split_ifs at h with hid
    rw [hid, Except.ok.inj h]
  | requestEnd => cases h
  | nodeDef d => cases h

theorem definitionMatcher_ok {id : Int32} {r : WingResponse} {d : WingNodeDef}
    (h : definitionMatcher id r = .ok d) : r = .nodeDef d := by
  cases r with
  | nodeDef d' =>
    simp only [definitionMatcher] at h
    split_ifs at h
    rw [Except.ok.inj h]
  | requestEnd => cases h
  | nodeData rid d => cases h

/-! ### A session -/

/-- The calls that deliver responses. -/
inductive Call where
  | read
  | readTimeout (timeout : Time)
  | getNodeData (id : Int32) (timeout : Time)
  | getNodeDefinition (id : Int32) (timeout : Time)
  deriving DecidableEq

/-- Make a call: the responses it delivers are, for a get, what it buffered and then the match. -/
def Call.run (w : World) : Call → ConsoleM (List WingResponse)
  | read => do
    let r ← Console.read w
    return [r]
  | readTimeout timeout => do
    let r ← Console.readTimeout w timeout
    return [r]
  | getNodeData id timeout => do
    let (data, buffered) ← Console.getNodeData w id timeout
    return buffered ++ [.nodeData id data]
  | getNodeDefinition id timeout => do
    let (d, buffered) ← Console.getNodeDefinition w id timeout
    return buffered ++ [.nodeDef d]

theorem readLocked_taken (hc : Ready c) :
    Triple (· = c) (readLocked w) (fun r c' => SameSession c c' ∧ c.remaining = [r] ++ c'.remaining)
      (fun e c' => SameSession c c' ∧ (e = .timeout → c'.remaining = c.remaining)) := by
  refine (readLocked_spec hc.capture hc.streamTainted).conseq (fun _ h => h) (fun r c' h => ?_)
    fun e c' h => ⟨h.1.call.toSameSession, fun he => ?_⟩
  · exact ⟨h.session, ((Consumed.refl c).deliver h).remaining⟩
  · rcases h.1.cause with ⟨-, -, hsame⟩ | ⟨hne, -⟩
    · rw [remaining, remaining, hsame, h.1.call.pending]
    · exact absurd he hne

theorem readTimeout_taken (hc : Ready c) (timeout : Time) :
    Triple (· = c) (readTimeout w timeout)
      (fun r c' => Ready c' ∧ c.remaining = [r] ++ c'.remaining)
      (fun e c' => Ready c' ∧ (e = .timeout → c'.remaining = c.remaining)) := by
  refine Triple.bind (Q := fun _ c' => Ticked c c') ?_ fun now => ?_
  · exact instantNow_spec.conseq (fun _ h => h ▸ Ticked.refl c) (fun _ _ h => h) fun _ _ h => h.elim
  · intro c₁ htick
    let c₂ : Console := { c₁ with main := { c₁.main with opDeadline := some (now + timeout) } }
    have hready : Ready c₂ := ⟨htick.capture.trans hc.capture,
      htick.streamTainted.trans hc.streamTainted⟩
    have hrem : c₂.remaining = c.remaining := by
      rw [remaining, remaining, show c₂.stream = c.stream from htick.stream,
        show c₂.main.pending = c.main.pending from htick.pending]
    have hafter : ∀ {c'}, SameSession c₂ c' →
        Ready { c' with main := { c'.main with opDeadline := none } } := fun hs =>
      ⟨hs.capture.trans hready.capture, hs.streamTainted.trans hready.streamTainted⟩
    refine Triple.bind (P := (· = c₁)) (Q := fun _ c' => c' = c₂) (fun s hs => by rw [hs]; rfl)
      (fun _ => Triple.attempt_finally (readLocked_taken hready) ?_ ?_) c₁ rfl
    · exact fun r c' h => ⟨hafter h.1, hrem ▸ h.2⟩
    · exact fun e c' h => ⟨hafter h.1, fun he => hrem ▸ h.2 he⟩

/-- **One call** delivers the first of the remaining responses, or runs out of time and delivers
nothing. -/
theorem Call.run_spec (hc : Ready c) (call : Call) :
    Triple (· = c) (call.run w) (fun rs c' => Ready c' ∧ c.remaining = rs ++ c'.remaining)
      (fun e c' => Ready c' ∧ (e = .timeout → c'.remaining = c.remaining)) := by
  cases call with
  | read =>
    refine Triple.bind ((readLocked_taken hc).conseq (fun _ h => h) (fun _ _ h => h) ?_)
      fun r => Triple.pure fun c' h => ⟨hc.of_session h.1, h.2⟩
    exact fun e c' h => ⟨hc.of_session h.1, h.2⟩
  | readTimeout timeout =>
    exact Triple.bind (readTimeout_taken hc timeout) fun r => Triple.pure fun c' h => h
  | getNodeData id timeout =>
    refine Triple.bind (getNodeData_spec hc id timeout) fun result => Triple.pure fun c' h => ?_
    obtain ⟨r, hr, hcons⟩ := h.2.answer
    rw [← dataMatcher_ok hr]
    exact ⟨h.1, hcons.remaining⟩
  | getNodeDefinition id timeout =>
    refine Triple.bind (getNodeDefinition_spec hc id timeout) fun result =>
      Triple.pure fun c' h => ?_
    obtain ⟨r, hr, hcons⟩ := h.2.answer
    rw [← definitionMatcher_ok hr]
    exact ⟨h.1, hcons.remaining⟩

/-- Make calls one after the other: their outcomes and the final console. -/
def runSession (w : World) :
    List Call → Console → List (Except Error (List WingResponse)) × Console
  | [], c => ([], c)
  | call :: calls, c =>
    let (o, c') := outcome (call.run w) c
    let (os, c'') := runSession w calls c'
    (o :: os, c'')

/-- A call that succeeded or ran out of time. -/
def Ended (o : Except Error (List WingResponse)) : Prop := ∀ e, o = .error e → e = .timeout

/-- What a call delivered. -/
def delivered : Except Error (List WingResponse) → List WingResponse
  | .ok rs => rs
  | .error _ => []

/-- **A sequence of calls** delivers the first of the remaining responses, in order. -/
theorem runSession_remaining (calls : List Call) (hc : Ready c)
    {os : List (Except Error (List WingResponse))} (h : runSession w calls c = (os, c'))
    (hended : ∀ o ∈ os, Ended o) : c.remaining = os.flatMap delivered ++ c'.remaining := by
  induction calls generalizing c os with
  | nil =>
    cases h
    rfl
  | cons call calls ih =>
    rcases hrest : runSession w calls (outcome (call.run w) c).2 with ⟨os', c''⟩
    simp only [runSession, hrest] at h
    cases h
    have htail := fun hready => ih hready hrest fun o ho => hended o (List.mem_cons_of_mem _ ho)
    rcases (call.run_spec hc).outcome rfl with ⟨rs, c₁, ho, hready, hrem⟩ | ⟨e, c₁, ho,
      hready, htime⟩
    · rw [ho] at htail ⊢
      rw [hrem, htail hready, List.flatMap_cons, List.append_assoc]
      rfl
    · have he : e = .timeout := by
        refine hended (.error e) ?_ e rfl
        rw [ho]
        exact List.mem_cons_self
      rw [ho] at htail ⊢
      rw [← htime he, htail hready]
      rfl

/-- **Responses are conserved.**  After any calls on a session, each of which succeeded or ran out
of time, what they delivered in order, the pending queue and the responses still to be parsed are
together the responses of the session's stream. -/
theorem runSession_conserved (w : World) (now : Time) (rsock : List Poll) (calls : List Call)
    {outcomes : List (Except Error (List WingResponse))}
    (hrun : runSession w calls (new now rsock) = (outcomes, c)) (hended : ∀ o ∈ outcomes, Ended o) :
    outcomes.flatMap delivered ++ c.main.pending ++ c.stream.responses =
      (new now rsock).stream.responses := by
  have hrem := runSession_remaining calls (c := new now rsock) ⟨rfl, rfl⟩ hrun hended
  rw [List.append_assoc]
  exact hrem.symm

/-- A get for node 5 that runs out of time after it read a value of node 7, and a read. -/
theorem runSession_conserved_requeued :
    let rsock : List Poll := [.read (.ok [0xd7, 0, 0, 0, 7, 9, 0xde]), .read (.error .wouldBlock),
      .read (.error .wouldBlock), .read (.ok [0xd7, 0, 0, 0, 5, 1])]
    ∃ outcomes c, runSession .steady [.getNodeData 5 12, .read, .getNodeData 5 99] (new 0 rsock) =
        (outcomes, c) ∧
      outcomes = [.error .timeout, .ok [.nodeData 7 (.withI32 9)],
        .ok [.requestEnd, .nodeData 5 (.withI32 1)]] ∧
      outcomes.flatMap delivered ++ c.main.pending ++ c.stream.responses =
        (new 0 rsock).stream.responses := by
  intro rsock
  rcases hrun : runSession .steady [.getNodeData 5 12, .read, .getNodeData 5 99] (new 0 rsock) with
    ⟨outcomes, c⟩
  have houtcomes : outcomes = [.error .timeout, .ok [.nodeData 7 (.withI32 9)],
      .ok [.requestEnd, .nodeData 5 (.withI32 1)]] := by
    rw [← show (runSession .steady _ (new 0 rsock)).1 = outcomes from congrArg Prod.fst hrun]
    decide +kernel
  have hended : ∀ o ∈ outcomes, Ended o := by
    rw [houtcomes]
    intro o ho e he
    subst he
    simpa using ho
  exact ⟨outcomes, c, rfl, houtcomes, runSession_conserved .steady 0 rsock _ hrun hended⟩

end Console

end LibWing
