import LibWing.Console.Conserve
import LibWing.Console.Steady

/-!
# The states of a console

The states a console can be in between two calls, whatever calls were made on it, by any clone, in
any world.

* `ReaderCall` : all the calls that hold the read gate;
* `Stable` : a property that reading and the bookkeeping of the calls keep is kept by the calls;
* `ReaderCall.run_streamTainted` : only a capture that runs out of time taints the stream;
* `Reachable` : the states, and `Reachable.capture` : no raw capture is active between two calls.
-/

namespace LibWing

open Stateful

namespace Console

variable {w : World} {c c' : Console}

/-! ### The calls under the read gate -/

/-- The calls that hold the read gate. -/
inductive ReaderCall where
  | deliver (call : Call)
  | getNodeDefinitions (rootId : Int32) (timeout : Time)
  | getBinaryNode (id : Int32) (timeout : Time)
  deriving DecidableEq

/-- What they return. -/
inductive Reply where
  | responses (rs : List WingResponse)
  | definitions (ds : List WingNodeDef)
  | captured (bytes : List UInt8)
  deriving DecidableEq

/-- Make a call. -/
def ReaderCall.run (w : World) : ReaderCall → ConsoleM Reply
  | deliver call => do
    let rs ← call.run w
    return .responses rs
  | getNodeDefinitions rootId timeout => do
    let ds ← Console.getNodeDefinitions w rootId timeout
    return .definitions ds
  | getBinaryNode id timeout => do
    let bytes ← Console.getBinaryNode w id timeout
    return .captured bytes

/-! ### What the calls keep -/

/-- A property that reading and the bookkeeping of the calls keep. -/
structure Stable (P : Console → Prop) : Prop where
  /-- A read keeps it. -/
  readLocked : ∀ w, Keeps P (readLocked w)
  /-- Looking at the world keeps it. -/
  ticked : ∀ {c c'}, Ticked c c' → P c → P c'
  /-- It is not about the queue. -/
  pending : ∀ {c} rs, P c → P { c with main := { c.main with pending := rs } }
  /-- It is not about the deadline. -/
  opDeadline : ∀ {c} d, P c → P { c with main := { c.main with opDeadline := d } }

namespace Stable

variable {P : Console → Prop} (h : Stable P)
include h

theorem steady : Steady P where
  readLocked := h.readLocked
  tick {c} hc := by
    have hticked : Ticked c { c with tick := c.tick + 1 } :=
      ⟨⟨⟨rfl, rfl, rfl, rfl, rfl⟩, rfl, rfl, rfl, rfl⟩, rfl, rfl⟩
    exact h.ticked hticked hc
  pending := h.pending
  opDeadline := h.opDeadline

theorem writeAll (bytes : List UInt8) : Keeps P (writeAll w bytes) := by
  intro c hc
  refine (writeAll_spec (w := w) bytes).conseq (P := (· = c)) ?_ (fun _ c' ht => h.ticked ht hc)
    (fun _ c' ht => h.ticked ht.1 hc) c rfl
  exact fun _ hs => hs ▸ Ticked.refl c

theorem requestNodeData (id : Int32) : Keeps P (requestNodeData w id) :=
  Keeps.bind (ensureStreamUsable_keeps P) fun _ => h.writeAll _

theorem requestNodeDefinition (id : Int32) : Keeps P (requestNodeDefinition w id) :=
  Keeps.bind (ensureStreamUsable_keeps P) fun _ => h.writeAll _

theorem call (call : Call) : Keeps P (call.run w) := by
  cases call with
  | read => exact Keeps.bind (h.readLocked w) fun r => Keeps.pure _
  | readTimeout timeout => exact Keeps.bind (h.steady.readTimeout timeout) fun r => Keeps.pure _
  | getNodeData id timeout =>
    exact Keeps.bind (h.steady.attendedGet _ (h.requestNodeData id) timeout) fun r => Keeps.pure _
  | getNodeDefinition id timeout =>
    exact Keeps.bind (h.steady.attendedGet _ (h.requestNodeDefinition id) timeout) fun r =>
      Keeps.pure _

theorem definitionsLoop (deadline : Time) (fuel : ℕ) (b : Batch) :
    Keeps P (definitionsLoop w deadline fuel b) := by
  induction fuel generalizing b with
  | zero => exact Keeps.pure _
  | succ fuel ih =>
    -- Every case that goes on looks at the clock first.
    have hnext : ∀ b' : Batch, Keeps P (do
        if (← Console.instantNow w) ≥ deadline then return (.error .timeout, b'.buffered)
        else Console.definitionsLoop w deadline fuel b') := by
      intro b'
      refine Keeps.bind h.steady.instantNow fun now => ?_
      split_ifs
      · exact Keeps.pure _
      · exact ih b'
    refine Keeps.bind_attempt (h.readLocked w) fun r => ?_
    cases r with
    | error e => exact Keeps.pure _
    | ok response =>
      cases response with
      | nodeDef d =>
        simp only []
        split_ifs
        · exact hnext _
        · exact hnext _
        · exact Keeps.pure _
      | requestEnd =>
        simp only []
        split_ifs
        · exact Keeps.pure _
        · exact hnext _
        · exact Keeps.pure _
      | nodeData rid data =>
        simp only []
        split_ifs
        · exact hnext _
        · exact Keeps.pure _

theorem getNodeDefinitions (rootId : Int32) (timeout : Time) :
    Keeps P (getNodeDefinitions w rootId timeout) := by
  refine Keeps.bind_get fun c => Keeps.bind (fun _ hc => h.pending _ hc) fun _ =>
    Keeps.bind_attempt (h.requestNodeDefinition rootId) fun r => ?_
  cases r with
  | error e => exact Keeps.bind (h.steady.requeue _) fun _ => Keeps.throw _
  | ok u =>
    exact Keeps.bind h.steady.instantNow fun now => Keeps.bind (h.steady.setOpDeadline _) fun _ =>
      Keeps.bind_get fun c' => Keeps.bind (h.definitionsLoop _ _ _) fun result =>
        Keeps.bind (h.steady.setOpDeadline _) fun _ => Keeps.bind (h.steady.requeue _) fun _ =>
          Keeps.ofExcept _

/-- The loop of a capture always comes to an end of its own. -/
theorem drainLoop {E : Error → Console → Prop} (deadline : Time) (fuel : ℕ) :
    Triple P (drainLoop w deadline fuel) (fun _ => P) E := by
  induction fuel with
  | zero => exact Triple.pure fun _ hc => hc
  | succ fuel ih =>
    have hnext : Triple P (do
        if (← Console.instantNow w) ≥ deadline then return .error .timeout
        else Console.drainLoop w deadline fuel) (fun _ => P) E := by
      refine Triple.bind h.steady.instantNow fun now => ?_
      split_ifs
      · exact Triple.pure fun _ hc => hc
      · exact ih
    refine Triple.bind_attempt (h.readLocked w) (fun response => ?_) fun e =>
      Triple.pure fun _ hc => hc
    cases response with
    | requestEnd => exact Triple.pure fun _ hc => hc
    | nodeDef d => exact hnext
    | nodeData rid data => exact hnext

end Stable

/-! ### The raw capture and the taint -/

/-- A tainted stream is not read. -/
theorem readLocked_tainted (ht : c.streamTainted = true) :
    Triple (· = c) (readLocked w) (fun _ _ => False) (fun _ c' => c' = c) := by
  refine Triple.bind_get fun s hs => ?_
  rw [hs, ht]
  exact Triple.throw fun _ h => h

theorem stable_capture : Stable fun c => c.main.capture = none where
  readLocked w := by
    intro c hc
    by_cases ht : c.streamTainted = true
    · exact (readLocked_tainted ht).conseq (P := (· = c)) (fun _ h => h) (fun _ _ h => h.elim)
        (fun _ _ h => h ▸ hc) c rfl
    · refine (readLocked_spec (w := w) hc (Bool.eq_false_iff.mpr ht)).conseq (P := (· = c))
        (fun _ h => h) (fun r c' h => ?_) (fun e c' h => ?_) c rfl
      · exact h.session.capture.trans hc
      · exact h.1.call.capture.trans hc
  ticked h hc := h.capture.trans hc
  pending _ hc := hc
  opDeadline _ hc := hc

section StreamTainted

variable (b : Bool)

theorem passive_streamTainted : Passive fun c => c.streamTainted = b where
  main _ hc := hc
  tick hc := hc
  rsock _ _ hc := hc
  keepAlive hc := hc

theorem stable_streamTainted : Stable fun c => c.streamTainted = b where
  readLocked _ := (passive_streamTainted b).readLocked
  ticked h hc := h.streamTainted.trans hc
  pending _ hc := hc
  opDeadline _ hc := hc

theorem takeCapture_spec (result : Except Error Unit) :
    Triple (fun c => c.streamTainted = b) (takeCapture result)
      (fun _ c' => c'.main.capture = none ∧ c'.streamTainted = b)
      (fun e c' => c'.main.capture = none ∧
        (c'.streamTainted = b ∨ e = .timeout ∧ c'.streamTainted = true)) := by
  refine Triple.bind_get fun c hc => Triple.bind (Q := fun _ c' =>
    c'.main.capture = none ∧ c'.streamTainted = b) ?_ fun _ => ?_
  · rintro c' rfl
    exact ⟨rfl, hc⟩
  · cases result with
    | ok u => exact Triple.pure fun c' h => h
    | error e =>
      by_cases he : e = .timeout
      · subst he
        exact fun c' h => ⟨h.1, Or.inr ⟨rfl, rfl⟩⟩
      · have hne : (.error e : Except Error Unit) ≠ .error .timeout := by
          intro h
          exact he (Except.error.inj h)
        rw [if_neg hne]
        exact Triple.throw fun c' h => ⟨h.1, Or.inl h.2⟩

end StreamTainted

/-- A capture that fails to send its request changes nothing; otherwise the raw capture is over and
the stream is tainted only if time ran out. -/
theorem getBinaryNode_spec (hcap : c.main.capture = none) (id : Int32) (timeout : Time) :
    Triple (· = c) (getBinaryNode w id timeout)
      (fun _ c' => c'.main.capture = none ∧ c'.streamTainted = c.streamTainted)
      (fun e c' => c'.main.capture = none ∧
        (c'.streamTainted = c.streamTainted ∨ e = .timeout ∧ c'.streamTainted = true)) := by
  have hstable := stable_streamTainted c.streamTainted
  have hreq : Triple (· = c) (requestNodeData w id)
      (fun _ c' => c'.streamTainted = c.streamTainted)
      (fun e c' => c'.main.capture = none ∧
        (c'.streamTainted = c.streamTainted ∨ e = .timeout ∧ c'.streamTainted = true)) := by
    rintro c rfl
    have ht := hstable.requestNodeData (w := w) id c rfl
    have hc := stable_capture.requestNodeData (w := w) id c hcap
    cases hr : requestNodeData w id c with
    | ok u c' =>
      rw [hr] at ht
      exact ht
    | error e c' =>
      rw [hr] at ht hc
      exact ⟨hc, Or.inl ht⟩
  refine Triple.bind hreq fun _ => Triple.bind hstable.steady.instantNow fun now => ?_
  refine Triple.bind_get fun c₁ hc₁ => Triple.bind (Q := fun _ c' =>
    c'.streamTainted = c.streamTainted) (fun c' hc' => hc' ▸ hc₁) fun _ => ?_
  refine Triple.bind_get fun c₂ hc₂ => Triple.bind ?_ fun result =>
    Triple.bind (Q := fun _ c' => c'.streamTainted = c.streamTainted) (fun _ h => h)
      fun _ => takeCapture_spec c.streamTainted result
  rintro c' rfl
  exact hstable.drainLoop _ _ c' hc₂

theorem getBinaryNode_run_spec (hcap : c.main.capture = none) (id : Int32) (timeout : Time) :
    Triple (· = c) ((ReaderCall.getBinaryNode id timeout).run w)
      (fun _ c' => c'.main.capture = none ∧ c'.streamTainted = c.streamTainted)
      (fun e c' => c'.main.capture = none ∧
        (c'.streamTainted = c.streamTainted ∨ e = .timeout ∧ c'.streamTainted = true)) :=
  Triple.bind (getBinaryNode_spec hcap id timeout) fun _ => Triple.pure fun _ h => h

/-! ### The taint -/

/-- **Only a capture that runs out of time taints the stream.** -/
theorem ReaderCall.run_streamTainted (hcap : c.main.capture = none) (call : ReaderCall)
    {r : Except Error Reply} (h : outcome (call.run w) c = (r, c')) :
    c'.streamTainted = c.streamTainted ∨
      (∃ id timeout, call = .getBinaryNode id timeout) ∧ r = .error .timeout := by
  have hkeep : Keeps (fun c' => c'.streamTainted = c.streamTainted) (call.run w) →
      c'.streamTainted = c.streamTainted := by
    intro hk
    have hc' := hk.outcome (s := c) rfl
    rw [h] at hc'
    exact hc'
  have hstable := stable_streamTainted c.streamTainted
  cases call with
  | deliver call => exact Or.inl (hkeep (Keeps.bind (hstable.call call) fun rs => Keeps.pure _))
  | getNodeDefinitions rootId timeout =>
    exact Or.inl (hkeep (Keeps.bind (hstable.getNodeDefinitions rootId timeout) fun ds =>
      Keeps.pure _))
  | getBinaryNode id timeout =>
    have hrun := getBinaryNode_run_spec (w := w) hcap id timeout
    rcases hrun.outcome rfl with ⟨a, c₁, ho, -, hc₁⟩ | ⟨e, c₁, ho, -, hc₁⟩
    · have heq := ho.symm.trans h
      cases heq
      exact Or.inl hc₁
    · have heq := ho.symm.trans h
      cases heq
      rcases hc₁ with hc₁ | ⟨rfl, -⟩
      · exact Or.inl hc₁
      · exact Or.inr ⟨⟨id, timeout, rfl⟩, rfl⟩

/-- No call leaves a raw capture behind. -/
theorem ReaderCall.run_capture (hcap : c.main.capture = none) (call : ReaderCall) :
    (outcome (call.run w) c).2.main.capture = none := by
  cases call with
  | deliver call =>
    exact Keeps.outcome (Keeps.bind (stable_capture.call call) fun rs => Keeps.pure _) hcap
  | getNodeDefinitions rootId timeout =>
    exact Keeps.outcome (Keeps.bind (stable_capture.getNodeDefinitions rootId timeout) fun ds =>
      Keeps.pure _) hcap
  | getBinaryNode id timeout =>
    have hrun := getBinaryNode_run_spec (w := w) hcap id timeout
    rcases hrun.outcome rfl with ⟨a, c₁, ho, hc₁, -⟩ | ⟨e, c₁, ho, hc₁, -⟩
    · exact (congrArg (fun p => p.2.main.capture) ho).trans hc₁
    · exact (congrArg (fun p => p.2.main.capture) ho).trans hc₁

/-! ### Reachable states -/

/-- What a successful reconnect does to the reader, with `main` and both sockets locked: the new
streams, and a reset of the parser. -/
def swapIn (c : Console) (now : Time) (rsock : List Poll) : Console :=
  { c with
    main := { c.main with
      rxBuf := []
      rxChannels := .on audioEngineChannel
      rxEvents := []
      replay := []
      pending := []
      readCapture := []
      capture := none
      currentNodeId := 0
      opDeadline := none
      keepAliveTimer := now + seconds dataKeepAliveSeconds }
    rsock := rsock
    rsockTimeout := 0
    wsock := []
    tick := 0 }

/-- The reset leaves nothing of the old session but the taint. -/
theorem swapIn_eq_new (c : Console) (now : Time) (rsock : List Poll) :
    { c.swapIn now rsock with streamTainted := false } = new now rsock := rfl

/-- The states of a console between two calls under the read gate. -/
inductive Reachable : Console → Prop
  | new (now : Time) (rsock : List Poll) : Reachable (.new now rsock)
  /-- A call, in any world. -/
  | call {c : Console} (w : World) (call : ReaderCall) :
      Reachable c → Reachable (outcome (call.run w) c).2
  /-- What clones do without the read gate: keepalives and writes. -/
  | elsewhere {c c' : Console} : Ticked c c' → Reachable c → Reachable c'
  /-- A reconnect, which holds the read gate from the swap until it has cleared the taint. -/
  | reconnect {c : Console} (now : Time) (rsock : List Poll) :
      Reachable c → Reachable { c.swapIn now rsock with streamTainted := false }

/-- No raw capture is active between two calls. -/
theorem Reachable.capture (h : Reachable c) : c.main.capture = none := by
  induction h with
  | new => rfl
  | call w call _ ih => exact call.run_capture ih
  | elsewhere ht _ ih => exact ht.capture.trans ih
  | reconnect => rfl

end Console

end LibWing
