import LibWing.Console.Conserve
import LibWing.Console.Exact

/-!
# The definitions of a subtree

`get_node_definitions` asks for the definitions below a node and reads until an end marker.  Which
definitions belong to the subtree becomes known as they arrive: one whose parent is known makes its
own id known.  Everything else goes back to the pending queue, behind what was queued before.

* `belongs`, `subtree`, `unrelated` : the definitions of a subtree among some responses, and the
  others;
* `Sifted` : what the loop makes of the responses it has read;
* `definitionsLoop_spec` : the loop, to an end marker or until it runs out of time;
* `getNodeDefinitions_transaction` : the call.
-/

namespace LibWing

open Stateful

/-! ### A growing subtree -/

/-- The definition, if its id or its parent's is known. -/
def belongs (ids : List Int32) : WingResponse → Option WingNodeDef
  | .nodeDef d => if d.id ∈ ids ∨ d.parentId ∈ ids then some d else none
  | _ => none

/-- The definitions of the subtree below the nodes that are known.  Each makes its own id known. -/
def subtree (ids : List Int32) : List WingResponse → List WingNodeDef
  | [] => []
  | r :: rs =>
    match belongs ids r with
    | some d => d :: subtree (d.id :: ids) rs
    | none => subtree ids rs

/-- The responses that are no definitions of the subtree. -/
def unrelated (ids : List Int32) : List WingResponse → List WingResponse
  | [] => []
  | r :: rs =>
    match belongs ids r with
    | some d => unrelated (d.id :: ids) rs
    | none => r :: unrelated ids rs

theorem belongs_eq_some {ids : List Int32} {r : WingResponse} {d : WingNodeDef}
    (h : belongs ids r = some d) : r = .nodeDef d := by
  cases r with
  | nodeDef d' =>
    simp only [belongs] at h
    split_ifs at h
    rw [Option.some.inj h]
  | requestEnd => cases h
  | nodeData id data => cases h

/-- The responses do not go on after an end marker that follows a definition of the subtree. -/
def StillOpen (root : Int32) (rs : List WingResponse) : Prop :=
  ∀ before after, rs = before ++ .requestEnd :: after → subtree [root] before = []

namespace Console

variable {w : World} {c c' : Console}

/-! ### The loop -/

/-- What a loop that began with `b` makes of the responses it has read. -/
structure Sifted (b : Batch) (parsed : List WingResponse) (definitions : List WingNodeDef)
    (buffered : List WingResponse) : Prop where
  /-- The definitions of the subtree were accepted. -/
  definitions : definitions = b.definitions ++ subtree b.ids parsed
  /-- Everything else was set aside. -/
  buffered : buffered = b.buffered ++ unrelated b.ids parsed
  /-- At each end marker, nothing had been accepted. -/
  stillOpen : ∀ before after, parsed = before ++ .requestEnd :: after →
    b.definitions ++ subtree b.ids before = []

namespace Sifted

variable {b : Batch} {r : WingResponse} {parsed : List WingResponse}
  {definitions : List WingNodeDef}
  {buffered : List WingResponse}

theorem nil (b : Batch) : Sifted b [] b.definitions b.buffered where
  definitions := by simp [subtree]
  buffered := by simp [unrelated]
  stillOpen before after h := by simp at h

/-- A definition is accepted first. -/
theorem accept {d : WingNodeDef} (hr : belongs b.ids r = some d)
    (h : Sifted { b with ids := d.id :: b.ids, definitions := b.definitions ++ [d] } parsed
      definitions buffered) : Sifted b (r :: parsed) definitions buffered where
  definitions := by
    rw [h.definitions, subtree, hr, List.append_assoc]
    rfl
  buffered := by
    rw [h.buffered, unrelated, hr]
  stillOpen before after hsplit := by
    rw [belongs_eq_some hr] at hsplit
    cases before with
    | nil => cases hsplit
    | cons r' before =>
      -- An end marker after it would have ended the loop.
      obtain ⟨-, hrest⟩ := List.cons.inj hsplit
      have := h.stillOpen before after hrest
      simp at this

/-- A response is buffered first; an end marker only as long as there are no definitions. -/
theorem pass (hr : belongs b.ids r = none) (hend : r = .requestEnd → b.definitions = [])
    (h : Sifted { b with buffered := b.buffered ++ [r] } parsed definitions buffered) :
    Sifted b (r :: parsed) definitions buffered where
  definitions := by
    rw [h.definitions, subtree, hr]
  buffered := by
    rw [h.buffered, unrelated, hr, List.append_assoc]
    rfl
  stillOpen before after hsplit := by
    cases before with
    | nil =>
      obtain ⟨hhead, -⟩ := List.cons.inj hsplit
      rw [hend hhead]
      rfl
    | cons r' before =>
      obtain ⟨rfl, hrest⟩ := List.cons.inj hsplit
      rw [subtree, hr]
      exact h.stillOpen before after hrest

end Sifted

/-- Where the loop ends: at an end marker, or with the stream somewhere in between. -/
def LoopEnd (c : Console) (b : Batch) :
    Except Error (List WingNodeDef) × List WingResponse → Console → Prop
  | (.ok definitions, buffered), c' => ∃ parsed,
      c.stream.responses = parsed ++ .requestEnd :: c'.stream.responses ∧
        Sifted b parsed definitions buffered ∧ definitions ≠ []
  | (.error e, buffered), c' => e = .timeout → ∃ parsed definitions,
      c.stream.responses = parsed ++ c'.stream.responses ∧ Sifted b parsed definitions buffered

/-- One more response in front. -/
theorem LoopEnd.cons {b b' : Batch} {r : WingResponse} {c₁ : Console}
    (hresp : c.stream.responses = r :: c₁.stream.responses)
    (hsift : ∀ {parsed definitions buffered}, Sifted b' parsed definitions buffered →
      Sifted b (r :: parsed) definitions buffered)
    {result : Except Error (List WingNodeDef) × List WingResponse} (h : LoopEnd c₁ b' result c') :
    LoopEnd c b result c' := by
  obtain ⟨result, buffered⟩ := result
  cases result with
  | ok definitions =>
    obtain ⟨parsed, hparsed, hs, hne⟩ := h
    exact ⟨r :: parsed, by rw [hresp, hparsed]; rfl, hsift hs, hne⟩
  | error e =>
    intro he
    obtain ⟨parsed, definitions, hparsed, hs⟩ := h he
    exact ⟨r :: parsed, definitions, by rw [hresp, hparsed]; rfl, hsift hs⟩

/-- A response that was read off the stream, with nothing queued. -/
theorem Delivered.parsed {r : WingResponse} (hp : c.main.pending = []) (h : Delivered c r c') :
    c'.main.pending = [] ∧ c.stream.responses = r :: c'.stream.responses ∧
      c'.stream.symbols.length < c.stream.symbols.length := by
  rcases h.source with ⟨hcons, -⟩ | ⟨-, hp', hread⟩
  · rw [hp] at hcons
    cases hcons
  · refine ⟨hp', Stream.responses_of_read hread, Stream.read_shrinks (Stream.outcome_ok hread) ?_⟩
    intro hend
    obtain ⟨s', hended, -⟩ := Stream.read_ended hend
    rw [Stream.outcome_ok hread] at hended
    cases hended

/-- The loop.  There is fuel for every response of the stream. -/
theorem definitionsLoop_spec (deadline : Time) (fuel : ℕ) (b : Batch) (hc : Ready c)
    (hp : c.main.pending = []) (hfuel : c.stream.symbols.length < fuel) :
    Triple (· = c) (definitionsLoop w deadline fuel b)
      (fun result c' => c'.main.pending = [] ∧ LoopEnd c b result c') (fun _ _ => False) := by
  induction fuel generalizing b c with
  | zero => exact absurd hfuel (Nat.not_lt_zero _)
  | succ fuel ih =>
    refine Triple.bind_attempt (readLocked_spec hc.capture hc.streamTainted) (fun r => ?_)
      fun e => ?_
    · -- After a response the clock decides whether to go on.
      have hnext : ∀ b' : Batch, (∀ {parsed definitions buffered},
          Sifted b' parsed definitions buffered → Sifted b (r :: parsed) definitions buffered) →
          Triple (Delivered c r) (do
            if (← instantNow w) ≥ deadline then return (.error .timeout, b'.buffered)
            else definitionsLoop w deadline fuel b')
            (fun result c' => c'.main.pending = [] ∧ LoopEnd c b result c') (fun _ _ => False) := by
        intro b' hsift
        have hnow : Triple (Delivered c r) (instantNow w) (fun _ c' => Ready c' ∧
            c'.main.pending = [] ∧ c.stream.responses = r :: c'.stream.responses ∧
              c'.stream.symbols.length < fuel) (fun _ _ => False) := by
          intro c₁ hd
          obtain ⟨hp₁, hresp, hlt⟩ := hd.parsed hp
          have htick := instantNow_spec (w := w) c₁ (Ticked.refl c₁)
          refine ⟨(hc.of_session hd.session).of_session htick.toSameFrame.sameCall.toSameSession,
            htick.pending.trans hp₁, ?_, ?_⟩
          · rw [htick.stream]
            exact hresp
          · rw [htick.stream]
            exact Nat.lt_of_lt_of_le hlt (Nat.le_of_lt_succ hfuel)
        refine Triple.bind hnow fun now => ?_
        split_ifs
        · exact Triple.pure fun c' h => ⟨h.2.1, fun _ =>
            ⟨[r], b'.definitions, h.2.2.1, hsift (Sifted.nil b')⟩⟩
        · intro c₁ h
          refine ((ih b' h.1 h.2.1 h.2.2.2).conseq (fun _ h => h) (fun result c' hend => ?_)
            fun _ _ h => h) c₁ rfl
          exact ⟨hend.1, hend.2.cons h.2.2.1 hsift⟩
      -- The branches that buffer the response do so as long as there is room.
      have hpass : belongs b.ids r = none → (r = .requestEnd → b.definitions = []) →
          Triple (Delivered c r) (if b.buffered.length < maxAttendedBuffered then do
              if (← instantNow w) ≥ deadline then return (.error .timeout, b.buffered ++ [r])
              else definitionsLoop w deadline fuel { b with buffered := b.buffered ++ [r] }
            else return (.error .invalidData, b.buffered))
            (fun result c' => c'.main.pending = [] ∧ LoopEnd c b result c') (fun _ _ => False) := by
        intro hr hend
        split_ifs
        · exact hnext { b with buffered := b.buffered ++ [r] } fun h => h.pass hr hend
        · exact Triple.pure fun c' hd => ⟨(hd.parsed hp).1, nofun⟩
      cases r with
      | nodeDef d =>
        by_cases hmem : d.id ∈ b.ids ∨ d.parentId ∈ b.ids
        · simp only [if_pos hmem]
          exact hnext _ fun h => h.accept (if_pos hmem)
        · simp only [if_neg hmem]
          exact hpass (if_neg hmem) nofun
      | requestEnd =>
        by_cases hne : b.definitions ≠ []
        · simp only [if_pos hne]
          refine Triple.pure fun c' hd => ?_
          obtain ⟨hp', hresp, -⟩ := hd.parsed hp
          exact ⟨hp', [], hresp, Sifted.nil b, hne⟩
        · simp only [if_neg hne]
          exact hpass rfl fun _ => not_not.mp hne
      | nodeData rid data => exact hpass rfl nofun
    · refine Triple.pure fun c' h => ⟨h.1.call.pending.trans hp, fun he => ?_⟩
      rcases h.1.cause with ⟨-, -, hsame⟩ | ⟨hne, -⟩
      · exact ⟨[], b.definitions, by rw [hsame]; rfl, Sifted.nil b⟩
      · exact absurd he hne

/-! ### The call -/

/-- What a call that accepted `definitions` has done: it has read `parsed` off the stream, and what
is unrelated waits behind what was queued. -/
structure Transaction (root : Int32) (c : Console) (parsed : List WingResponse)
    (definitions : List WingNodeDef) (c' : Console) : Prop where
  /-- It returns the definitions of the subtree. -/
  definitions : definitions = subtree [root] parsed
  /-- Everything else waits behind what was queued. -/
  pending : c'.main.pending = c.main.pending ++ unrelated [root] parsed
  /-- At each end marker in between, nothing had been accepted. -/
  stillOpen : StillOpen root parsed

/-- How a call ends. -/
def Transacted (root : Int32) (c : Console) : Except Error (List WingNodeDef) → Console → Prop
  | .ok definitions, c' => definitions ≠ [] ∧ ∃ parsed,
      c.stream.responses = parsed ++ .requestEnd :: c'.stream.responses ∧
        Transaction root c parsed definitions c'
  | .error .timeout, c' => ∃ parsed definitions,
      c.stream.responses = parsed ++ c'.stream.responses ∧ Transaction root c parsed definitions c'
  | .error _, _ => True

theorem transacted_of_ne {root : Int32} {e : Error} (he : e ≠ .timeout) :
    Transacted root c (.error e) c' := by
  cases e
  case timeout => exact absurd rfl he
  all_goals exact True.intro

theorem Sifted.transaction {root : Int32} {parsed buffered : List WingResponse}
    {definitions : List WingNodeDef} (h : Sifted ⟨[], [root], []⟩ parsed definitions buffered)
    (hp : c'.main.pending = c.main.pending ++ buffered) :
    Transaction root c parsed definitions c' where
  definitions := h.definitions
  pending := by
    rw [hp, h.buffered]
    rfl
  stillOpen := h.stillOpen

/-- The part of the call after its request: `c` is the console of the call, and in `c₁` its queue
has been set aside. -/
theorem getNodeDefinitions_rest {c₁ : Console} (hc : Ready c₁) (hp : c₁.main.pending = [])
    (hstream : c₁.stream = c.stream) (root : Int32) (deadline : Time) (fuel : ℕ)
    (hfuel : c₁.stream.symbols.length < fuel) :
    Triple (· = c₁) (do
        let (result, buffered) ← definitionsLoop w deadline fuel ⟨[], [root], []⟩
        setOpDeadline none
        requeue (c.main.pending ++ buffered)
        ofExcept result)
      (fun definitions c' => Transacted root c (.ok definitions) c')
      (fun e c' => Transacted root c (.error e) c') := by
  refine Triple.bind ((definitionsLoop_spec deadline fuel _ hc hp hfuel).conseq (fun _ h => h)
    (fun _ _ h => h) fun _ _ h => h.elim) ?_
  rintro ⟨result, buffered⟩ c' ⟨hp', hend⟩
  -- The queue of the call is in front of what the loop has buffered.
  let c₂ : Console := { c' with main := { c'.main with
    opDeadline := none
    pending := c.main.pending ++ buffered ++ c'.main.pending } }
  have hp₂ : c₂.main.pending = c.main.pending ++ buffered := by
    show c.main.pending ++ buffered ++ c'.main.pending = _
    rw [hp', List.append_nil]
  cases result with
  | ok definitions =>
    obtain ⟨parsed, hparsed, hs, hne⟩ := hend
    rw [hstream] at hparsed
    exact ⟨hne, parsed, hparsed, hs.transaction hp₂⟩
  | error e =>
    show Transacted root c (.error e) c₂
    by_cases he : e = .timeout
    · obtain ⟨parsed, definitions, hparsed, hs⟩ := hend he
      rw [hstream] at hparsed
      subst he
      exact ⟨parsed, definitions, hparsed, hs.transaction hp₂⟩
    · exact transacted_of_ne he

/-- A request that is sent finds a stream that is not tainted, and one that fails does not run out
of time. -/
theorem request_ready (hcap : c.main.capture = none) (message : List UInt8) :
    Triple (· = c) (do ensureStreamUsable; writeAll w message)
      (fun _ c' => Ready c ∧ Ticked c c') (fun e _ => e ≠ .timeout) := by
  by_cases htaint : c.streamTainted = true
  · rintro c rfl
    rw [request_tainted htaint]
    exact Error.noConfusion
  · have hc : Ready c := ⟨hcap, Bool.eq_false_iff.mpr htaint⟩
    exact (request_spec hc message).conseq (fun _ h => h) (fun _ _ h => ⟨hc, h⟩) fun _ _ h => h.2.2

/-- **A subtree is read as a transaction.**  Whatever is queued, whatever the stream and the world
are, a call that succeeds returns the definitions of the subtree among the responses up to the end
marker, and one that runs out of time has seen no such end marker; in both cases everything else
that was read waits behind what was queued before. -/
theorem getNodeDefinitions_transaction (hcap : c.main.capture = none) (root : Int32)
    (timeout : Time)
    {result : Except Error (List WingNodeDef)}
    (h : outcome (getNodeDefinitions w root timeout) c = (result, c')) :
    Transacted root c result c' := by
  have hrun : Triple (· = c) (getNodeDefinitions w root timeout)
      (fun definitions c' => Transacted root c (.ok definitions) c')
      (fun e c' => Transacted root c (.error e) c') := by
    refine Triple.bind_get fun s hs => ?_
    subst hs
    -- The queue is set aside before the request.
    let c₁ : Console := { s with main := { s.main with pending := [] } }
    refine Triple.bind (Q := fun _ c' => c' = c₁) (fun c' h => by rw [h]; rfl) fun _ => ?_
    refine Triple.bind_attempt (request_ready (c := c₁) hcap _) (fun _ => ?_) fun e => ?_
    · rintro c₂ ⟨hc, htick⟩
      refine Triple.bind (instantNow_spec.conseq (fun _ h => h) (fun _ _ h => h)
        fun _ _ h => h.elim) (fun now => ?_) c₂ htick
      intro c₃ htick
      let c₄ : Console := { c₃ with main := { c₃.main with opDeadline := some (now + timeout) } }
      have hstream : c₄.stream = s.stream := htick.stream
      have hready : Ready c₄ := ⟨htick.capture.trans hc.capture,
        htick.streamTainted.trans hc.streamTainted⟩
      have hfuel : c₄.stream.symbols.length < c₄.budget + 1 :=
        Nat.lt_succ_of_le (logical_length_le c₄)
      refine Triple.bind (P := (· = c₃)) (Q := fun _ c' => c' = c₄) (fun c' h => by rw [h]; rfl)
        (fun _ => Triple.bind_get fun c₅ h => ?_) c₃ rfl
      subst h
      exact getNodeDefinitions_rest hready htick.pending hstream root (now + timeout) _ hfuel
    · refine Triple.bind (Q := fun _ _ => e ≠ .timeout) (fun c' h => h) fun _ => ?_
      exact Triple.throw fun c' he => transacted_of_ne he
  rcases hrun.outcome rfl with ⟨definitions, c₁, ho, hpost⟩ | ⟨e, c₁, ho, hpost⟩
  · cases ho.symm.trans h
    exact hpost
  · cases ho.symm.trans h
    exact hpost

/-- A console with an older value queued.  Its stream has an end marker, the definition of node 7, a
value of node 9 and the end marker of the batch. -/
def refreshConsole : Console :=
  { Console.new 0 [.read (.ok [0xde, 0xdf, 0xde, 0, 14, 0, 0, 0, 0, 0, 0, 0, 7, 0, 0, 0, 0, 0, 0,
      0xd7, 0, 0, 0, 9, 3, 0xde])] with
    main := { (Console.new 0 []).main with pending := [.nodeData 7 (.withI32 1)] } }

/-- The call takes the definition, and leaves the rest in order. -/
theorem getNodeDefinitions_seven :
    ∃ definitions c', outcome (getNodeDefinitions .steady 7 99) refreshConsole =
        (.ok definitions, c') ∧ definitions.map (·.id) = [7] ∧
      c'.main.pending = [.nodeData 7 (.withI32 1), .requestEnd, .nodeData 9 (.withI32 3)] ∧
      Transacted 7 refreshConsole (.ok definitions) c' := by
  have hids : ((outcome (getNodeDefinitions .steady 7 99) refreshConsole).1.toOption.map
      fun ds => ds.map (·.id)) = some [7] := by decide +kernel
  have hpending : (outcome (getNodeDefinitions .steady 7 99) refreshConsole).2.main.pending =
      [.nodeData 7 (.withI32 1), .requestEnd, .nodeData 9 (.withI32 3)] := by decide +kernel
  rcases hrun : outcome (getNodeDefinitions .steady 7 99) refreshConsole with ⟨r, c'⟩
  rw [hrun] at hids hpending
  cases r with
  | error e => cases hids
  | ok definitions =>
    exact ⟨definitions, c', rfl, Option.some.inj hids, hpending,
      getNodeDefinitions_transaction rfl 7 99 hrun⟩

end Console

end LibWing
