import LibWing.Console.Parse

/-!
# Reading is cancellation safe

A bounded read that runs out of time, wherever in a response that happens, leaves nothing behind:
the calls that return are the reads of the logical stream, in order, as if no call had been bounded.

* `readLocked_spec` : what `read_locked` delivers, from the pending queue or from the stream;
* `ReadCall`, `runCalls` : the calls, and a sequence of them;
* `Stream.reads` : successive reads of a stream;
* `runCalls_completed` : the outcomes other than `Timeout` do not depend on how the transport cuts
  the stream, on the clock, or on the deadlines of the calls.
-/

namespace LibWing

open Stateful

namespace Console

variable {w : World} {c c' : Console}

/-! ### One call -/

/-- A response was delivered: the oldest one of the pending queue or, when that is empty, the next
one of the stream. -/
structure Delivered (c : Console) (r : WingResponse) (c' : Console) : Prop where
  /-- Nothing else of the session has changed. -/
  session : SameSession c c'
  /-- It was queued, or else it was read off the stream. -/
  source : (c.main.pending = r :: c'.main.pending ∧ c'.stream = c.stream) ∨
    (c.main.pending = [] ∧ c'.main.pending = [] ∧ c.stream.read = .ok r c'.stream)

/-- A read of a console that is not tainted delivers a response, or fails as a read of the stream
fails, runs out of time or is disturbed. -/
theorem readLocked_spec (hcap : c.main.capture = none) (htaint : c.streamTainted = false) :
    Triple (· = c) (readLocked w) (Delivered c)
      (fun e c' => ReadFailed w c e c' ∧ (w.Calm → c.main.pending = [])) := by
  refine Triple.bind_get fun s hs => ?_
  rw [hs, htaint]
  have hload : Triple (· = c) (loadReconnecting w)
      (fun r c' => Ticked c c' ∧ (r = true → ¬ w.Calm))
      (fun e c' => ReadFailed w c e c' ∧ (w.Calm → c.main.pending = [])) := by
    rintro c rfl
    refine ⟨⟨⟨⟨rfl, rfl, rfl, rfl, rfl⟩, rfl, rfl, rfl, rfl⟩, rfl, rfl⟩, fun hr hcalm => ?_⟩
    rw [hcalm.reconnecting] at hr
    cases hr
  refine Triple.bind hload fun r => ?_
  split_ifs with hr
  · refine Triple.throw fun c' h => ⟨⟨h.1.toSameFrame.sameCall, Or.inr ⟨Error.noConfusion, ?_⟩⟩, ?_⟩
    · exact Or.inl (h.2 hr)
    · exact fun hcalm => absurd hcalm (h.2 hr)
  · refine Triple.bind_get fun c₁ h => ?_
    have htick := h.1
    have hcall : SameCall c c₁ := htick.toSameFrame.sameCall
    have hstream : c₁.stream = c.stream := htick.stream
    cases hp : c₁.main.pending with
    | cons response rest =>
      rintro c₂ rfl
      refine ⟨hcall.toSameSession.trans ⟨rfl, rfl, rfl⟩, Or.inl ⟨?_, hstream⟩⟩
      rw [← hcall.pending, hp]
    | nil =>
      have hnil : c.main.pending = [] := hcall.pending.symm.trans hp
      refine (readNew_spec (c := c₁) (hcall.capture.trans hcap)).conseq (fun _ h => h)
        (fun r c' h => ?_) (fun e c' h => ⟨⟨hcall.trans h.call, ?_⟩, fun _ => hnil⟩)
      · refine ⟨hcall.toSameSession.trans h.1.toSameSession, Or.inr ⟨hnil, ?_, ?_⟩⟩
        · exact h.1.pending.trans hp
        · rw [← hstream]
          exact h.2
      · rw [← hstream, ← hcall.opDeadline]
        exact h.cause

/-- The console between two calls, with nothing queued. -/
structure Idle (c : Console) : Prop where
  /-- No raw capture is going on. -/
  capture : c.main.capture = none
  /-- The stream is not tainted. -/
  streamTainted : c.streamTainted = false
  /-- No operation has a deadline. -/
  opDeadline : c.main.opDeadline = none
  /-- Nothing is queued. -/
  pending : c.main.pending = []

theorem idle_new (now : Time) (rsock : List Poll) : Idle (new now rsock) := ⟨rfl, rfl, rfl, rfl⟩

/-- The calls that read one response. -/
inductive ReadCall where
  | read
  | readTimeout (timeout : Time)

/-- Make a call. -/
def ReadCall.run (w : World) : ReadCall → ConsoleM WingResponse
  | read => Console.read w
  | readTimeout timeout => Console.readTimeout w timeout

/-- What a call in an undisturbed session does: the next read of the stream, or nothing. -/
structure CallPost (c : Console) (r : Except Error WingResponse) (c' : Console) : Prop where
  /-- Another call can follow. -/
  idle : Idle c'
  /-- It ran out of time with the stream as it was, or did what the stream does. -/
  done : (r = .error .timeout ∧ c'.stream = c.stream) ∨
    (r ≠ .error .timeout ∧ outcome Stream.read c.stream = (r, c'.stream))

theorem readLocked_calm (hw : w.Calm) (hcap : c.main.capture = none)
    (htaint : c.streamTainted = false) (hp : c.main.pending = []) :
    Triple (· = c) (readLocked w)
      (fun r c' => SameSession c c' ∧ c'.main.pending = [] ∧
        outcome Stream.read c.stream = (.ok r, c'.stream))
      (fun e c' => SameSession c c' ∧ c'.main.pending = [] ∧
        ((e = .timeout ∧ c.main.opDeadline ≠ none ∧ c'.stream = c.stream) ∨
          (e ≠ .timeout ∧ outcome Stream.read c.stream = (.error e, c'.stream)))) := by
  refine (readLocked_spec hcap htaint).conseq (fun _ h => h) (fun r c' h => ?_) fun e c' h => ?_
  · refine ⟨h.session, ?_⟩
    rcases h.source with ⟨hcons, -⟩ | ⟨-, hp', hread⟩
    · rw [hp] at hcons
      cases hcons
    · exact ⟨hp', Stream.outcome_ok hread⟩
  · refine ⟨h.1.call.toSameSession, h.1.call.pending.trans hp, ?_⟩
    rcases h.1.cause with ht | ⟨he, hdist | hread⟩
    · exact Or.inl ht
    · exact absurd hw hdist
    · exact Or.inr ⟨he, Stream.outcome_error hread⟩

/-- **One call.**  It is the next read of the stream, or it ran out of time and the stream is as it
was; `read` does not run out of time. -/
theorem ReadCall.run_spec (hw : w.Calm) (hc : Idle c) (call : ReadCall) :
    ∃ r c', outcome (call.run w) c = (r, c') ∧ CallPost c r c' ∧
      (call = .read → r ≠ .error .timeout) := by
  have hidle : ∀ {c'}, SameSession c c' → c'.main.pending = [] → Idle c' := by
    intro c' hs hp
    exact ⟨hs.capture.trans hc.capture, hs.streamTainted.trans hc.streamTainted,
      hs.opDeadline.trans hc.opDeadline, hp⟩
  cases call with
  | read =>
    have h := (readLocked_calm hw hc.capture hc.streamTainted hc.pending).outcome rfl
    rcases h with ⟨r, c', ho, hs, hp, hread⟩ | ⟨e, c', ho, hs, hp, hcause⟩
    · exact ⟨.ok r, c', ho, ⟨hidle hs hp, Or.inr ⟨nofun, hread⟩⟩, nofun⟩
    · rcases hcause with ⟨-, hd, -⟩ | ⟨he, hread⟩
      · exact absurd hc.opDeadline hd
      · have hne : (.error e : Except Error WingResponse) ≠ .error .timeout := by
          intro h
          exact he (Except.error.inj h)
        exact ⟨.error e, c', ho, ⟨hidle hs hp, Or.inr ⟨hne, hread⟩⟩, fun _ => hne⟩
  | readTimeout timeout =>
    -- The deadline is set before the read and taken back after it, whatever the outcome.
    have hrun : Triple (· = c) (Console.readTimeout w timeout)
        (fun r c' => CallPost c (.ok r) c') (fun e c' => CallPost c (.error e) c') := by
      refine Triple.bind (Q := fun _ c₁ => Ticked c c₁) ?_ fun now => ?_
      · rintro c rfl
        exact ⟨⟨⟨rfl, rfl, rfl, rfl, rfl⟩, rfl, rfl, rfl, rfl⟩, rfl, rfl⟩
      · intro c₁ htick
        let c₂ : Console := { c₁ with main := { c₁.main with opDeadline := some (now + timeout) } }
        have hstream : c₂.stream = c.stream := htick.stream
        have hread := readLocked_calm (c := c₂) hw (htick.capture.trans hc.capture)
          (htick.streamTainted.trans hc.streamTainted) (htick.pending.trans hc.pending)
        have hafter : ∀ {c'}, SameSession c₂ c' → c'.main.pending = [] →
            Idle { c' with main := { c'.main with opDeadline := none } } := by
          intro c' hs hp
          exact ⟨hs.capture.trans (htick.capture.trans hc.capture),
            hs.streamTainted.trans (htick.streamTainted.trans hc.streamTainted), rfl, hp⟩
        refine Triple.bind (P := (· = c₁)) (Q := fun _ c' => c' = c₂) (fun s hs => by rw [hs]; rfl)
          (fun _ => Triple.attempt_finally hread ?_ ?_) c₁ rfl
        · rintro r c' ⟨hs, hp, hr⟩
          exact ⟨hafter hs hp, Or.inr ⟨nofun, hstream ▸ hr⟩⟩
        · rintro e c' ⟨hs, hp, hcause⟩
          refine ⟨hafter hs hp, ?_⟩
          rcases hcause with ⟨rfl, -, hsame⟩ | ⟨he, hr⟩
          · exact Or.inl ⟨rfl, hsame.trans hstream⟩
          · exact Or.inr ⟨fun h => he (Except.error.inj h), hstream ▸ hr⟩
    rcases hrun.outcome rfl with ⟨r, c', ho, hpost⟩ | ⟨e, c', ho, hpost⟩
    · exact ⟨.ok r, c', ho, hpost, nofun⟩
    · exact ⟨.error e, c', ho, hpost, nofun⟩

/-! ### A sequence of calls -/

/-- Make calls one after the other: their outcomes and the final console. -/
def runCalls (w : World) : List ReadCall → Console → List (Except Error WingResponse) × Console
  | [], c => ([], c)
  | call :: calls, c =>
    let (r, c') := outcome (call.run w) c
    let (rs, c'') := runCalls w calls c'
    (r :: rs, c'')

end Console

/-- Successive reads of a stream: their outcomes and what is left of the stream. -/
def Stream.reads : ℕ → Stream → List (Except Error WingResponse) × Stream
  | 0, s => ([], s)
  | n + 1, s =>
    let (r, s') := outcome Stream.read s
    let (rs, s'') := Stream.reads n s'
    (r :: rs, s'')

namespace Console

variable {w : World} {c c' : Console}

/-- The outcomes other than `Timeout`. -/
def completed (rs : List (Except Error WingResponse)) : List (Except Error WingResponse) :=
  rs.filter (· ≠ .error .timeout)

/-- **A sequence of calls** completes the successive reads of the stream. -/
theorem runCalls_reads (hw : w.Calm) (calls : List ReadCall) (hc : Idle c)
    {rs : List (Except Error WingResponse)} (h : runCalls w calls c = (rs, c')) :
    c.stream.reads (completed rs).length = (completed rs, c'.stream) ∧ Idle c' := by
  induction calls generalizing c rs with
  | nil =>
    cases h
    exact ⟨rfl, hc⟩
  | cons call calls ih =>
    obtain ⟨r, c₁, ho, hpost, -⟩ := call.run_spec hw hc
    rcases hrest : runCalls w calls c₁ with ⟨rs', c₂⟩
    simp only [runCalls, ho, hrest] at h
    cases h
    obtain ⟨hreads, hidle⟩ := ih hpost.idle hrest
    refine ⟨?_, hidle⟩
    rcases hpost.done with ⟨rfl, hsame⟩ | ⟨hne, hread⟩
    · have hskip : completed (.error .timeout :: rs') = completed rs' := by
        simp [completed]
      rw [hskip, ← hsame]
      exact hreads
    · have hkeep : completed (r :: rs') = r :: completed rs' := by
        simp [completed, hne]
      rw [hkeep, List.length_cons, Stream.reads, hread]
      simp only [hreads]

/-- Plain reads all complete. -/
theorem runCalls_plain (hw : w.Calm) (n : ℕ) (hc : Idle c) {rs : List (Except Error WingResponse)}
    (h : runCalls w (List.replicate n .read) c = (rs, c')) :
    completed rs = rs ∧ rs.length = n := by
  induction n generalizing c rs with
  | zero =>
    cases h
    exact ⟨rfl, rfl⟩
  | succ n ih =>
    obtain ⟨r, c₁, ho, hpost, hne⟩ := ReadCall.read.run_spec hw hc
    rcases hrest : runCalls w (List.replicate n .read) c₁ with ⟨rs', c₂⟩
    simp only [List.replicate_succ, runCalls, ho, hrest] at h
    cases h
    obtain ⟨hall, hlen⟩ := ih hpost.idle hrest
    refine ⟨?_, by rw [List.length_cons, hlen]⟩
    have hkeep : completed (r :: rs') = r :: completed rs' := by
      simp [completed, hne rfl]
    rw [hkeep, hall]

theorem stream_new (now : Time) (rsock : List Poll) :
    (new now rsock).stream = ⟨decodeSymbols (.on audioEngineChannel) (rawSymbols rsock), 0, 0⟩ :=
  rfl

/-- **Reading is cancellation safe.**  Take two transports with the same stream of bytes and
failures, however each cuts it, and undisturbed sessions over them.  Whatever calls are made on the
first and wherever they run out of time, the outcomes that are not timeouts are the outcomes of as
many plain reads on the second, and both consoles are left with the same logical stream and the
same node id. -/
theorem runCalls_completed (w₁ w₂ : World) (hw₁ : w₁.Calm) (hw₂ : w₂.Calm) (now₁ now₂ : Time)
    (rsock₁ rsock₂ : List Poll) (hsame : rawSymbols rsock₁ = rawSymbols rsock₂)
    (calls : List ReadCall) :
    let bounded := runCalls w₁ calls (new now₁ rsock₁)
    let plain := runCalls w₂ (List.replicate (completed bounded.1).length .read) (new now₂ rsock₂)
    completed bounded.1 = plain.1 ∧ bounded.2.logical = plain.2.logical ∧
      bounded.2.main.currentNodeId = plain.2.main.currentNodeId := by
  intro bounded plain
  obtain ⟨hreads, -⟩ := runCalls_reads hw₁ calls (idle_new now₁ rsock₁)
    (show _ = (bounded.1, bounded.2) from rfl)
  obtain ⟨hreads', -⟩ := runCalls_reads hw₂ _ (idle_new now₂ rsock₂)
    (show _ = (plain.1, plain.2) from rfl)
  obtain ⟨hall, hlen⟩ := runCalls_plain hw₂ _ (idle_new now₂ rsock₂)
    (show _ = (plain.1, plain.2) from rfl)
  rw [stream_new] at hreads hreads'
  rw [hall, hlen, ← hsame, hreads] at hreads'
  obtain ⟨hrs, hstream⟩ := Prod.mk.inj hreads'
  exact ⟨hrs, congrArg Stream.symbols hstream, congrArg Stream.nodeId hstream⟩

/-- A value cut inside its node id and inside an escape, by three reads that run out of time. -/
theorem runCalls_completed_cut :
    let cut : List Poll := [.read (.ok [0xd7, 0, 0]), .read (.error .wouldBlock),
      .read (.ok [0, 0xdf]), .read (.ok [0xde, 5])]
    let whole : List Poll := [.read (.ok [0xd7, 0, 0, 0, 0xdf, 0xde, 5])]
    let bounded := runCalls .steady
      [.readTimeout 8, .readTimeout 1, .readTimeout 12, .read, .read] (new 0 cut)
    bounded.1 = [.error .timeout, .error .timeout, .error .timeout,
      .ok (.nodeData 0xdf (.withI32 5)), .error .connectionError] ∧
    completed bounded.1 = (runCalls .steady
      (List.replicate (completed bounded.1).length .read) (new 0 whole)).1 := by
  intro cut whole bounded
  refine ⟨by decide +kernel, ?_⟩
  have hsame : rawSymbols cut = rawSymbols whole := by decide +kernel
  exact (runCalls_completed .steady .steady World.steady_calm World.steady_calm 0 0 cut whole hsame
    [.readTimeout 8, .readTimeout 1, .readTimeout 12, .read, .read]).1

end Console

end LibWing
