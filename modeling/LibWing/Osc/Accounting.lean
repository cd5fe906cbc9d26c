import LibWing.Lib.Window
import LibWing.Osc.Client
import LibWing.Osc.RoundTrip

/-!
# What becomes of a datagram

A request takes datagrams from the socket in two loops with different stops.  Each of them is
skipped, returned, discarded or kept for the caller, and nothing else happens to it.

* `Fate`, `Taken` : what became of the datagrams that were taken, and the world after it;
* `waitReply_taken`, `drainLoop_taken` : both loops;
* `Tally` : what was kept since it was last asked for, and how many were evicted;
* `request_accounting` : the buffer and its counter over any calls.
-/

namespace LibWing

namespace Osc

/-! ### Faults of the decoder -/

section Faults

variable {α β : Type} {bytes : List UInt8}

/-- A reader that fails with a malformed message, if it does not panic. -/
def FailsMalformed (x : Except Fault α) : Prop :=
  ∀ e, x = .error (.error e) → ∃ what, e = .malformed what

theorem FailsMalformed.ok (a : α) : FailsMalformed (.ok a) := by
  intro e h
  cases h

theorem FailsMalformed.malformed (what : String) :
    FailsMalformed (Osc.malformed what : Except Fault α) := by
  intro e h
  cases h
  exact ⟨what, rfl⟩

theorem FailsMalformed.outOfBounds : FailsMalformed (.error .outOfBounds : Except Fault α) := by
  intro e h
  cases h

theorem FailsMalformed.bind {x : Except Fault α} {f : α → Except Fault β} (hx : FailsMalformed x)
    (hf : ∀ a, FailsMalformed (f a)) : FailsMalformed (x >>= f) := by
  cases x with
  | ok a => exact hf a
  | error fault =>
    intro e h
    cases h
    exact hx e rfl

theorem slice_failsMalformed (start stop : ℕ) : FailsMalformed (slice bytes start stop) := by
  unfold slice
  split_ifs
  · exact .ok _
  · exact .outOfBounds

theorem readOscString_failsMalformed (start : ℕ) : FailsMalformed (readOscString bytes start) := by
  refine (slice_failsMalformed _ _).bind fun tail => ?_
  cases tail.findIdx? (· = 0) with
  | none => exact .malformed _
  | some nul =>
    refine (slice_failsMalformed _ _).bind fun text => ?_
    cases fromUtf8 text with
    | none => exact .malformed _
    | some s =>
      simp only
      split_ifs
      · exact .malformed _
      · exact .ok _

theorem readWord_failsMalformed (word : UInt8 → UInt8 → UInt8 → UInt8 → α) (what : String) (i : ℕ) :
    FailsMalformed (readWord bytes word what i) := by
  unfold readWord
  split
  · exact .malformed _
  · exact .ok _
  · exact .outOfBounds

theorem readBlob_failsMalformed (i : ℕ) : FailsMalformed (readBlob bytes i) := by
  refine (readWord_failsMalformed _ _ _).bind fun p => ?_
  obtain ⟨size, j⟩ := p
  simp only
  by_cases hneg : size.toInt < 0
  · rw [if_pos hneg]
    exact .malformed _
  · rw [if_neg hneg]
    cases get? bytes j (j + size.toInt.toNat) with
    | none => exact .malformed _
    | some data =>
      simp only
      split_ifs
      · exact .malformed _
      · exact .ok _

theorem readArg_failsMalformed (tag : Char) (i : ℕ) : FailsMalformed (readArg bytes tag i) := by
  unfold readArg
  split_ifs
  · exact (readWord_failsMalformed _ _ _).bind fun _ => .ok _
  · exact (readWord_failsMalformed _ _ _).bind fun _ => .ok _
  · exact (readOscString_failsMalformed _).bind fun _ => .ok _
  · exact (readBlob_failsMalformed _).bind fun _ => .ok _
  · exact .malformed _

theorem readArgs_failsMalformed (tags : List Char) (i : ℕ) :
    FailsMalformed (readArgs bytes tags i) := by
  induction tags generalizing i with
  | nil => exact .ok _
  | cons tag tags ih =>
    exact (readArg_failsMalformed _ _).bind fun _ => (ih _).bind fun _ => .ok _

theorem decode_failsMalformed (bytes : List UInt8) : FailsMalformed (decode bytes) := by
  refine (readOscString_failsMalformed _).bind fun p => ?_
  obtain ⟨addr, i⟩ := p
  simp only
  split_ifs
  · exact .malformed _
  · exact .ok _
  · refine (readOscString_failsMalformed _).bind fun p => ?_
    obtain ⟨tag, j⟩ := p
    simp only
    split
    · refine (readArgs_failsMalformed _ _).bind fun p => ?_
      split_ifs
      · exact .malformed _
      · exact .ok _
    · exact .malformed _

/-- A datagram that cannot be decoded is malformed, nothing else. -/
theorem decode_error {fault : Fault} (h : decode bytes = .error fault) :
    ∃ what, fault = .error (.malformed what) := by
  cases fault with
  | outOfBounds =>
    have hsafe : Safely _ (decode bytes) := decode_safely
    rw [h] at hsafe
    exact hsafe.elim
  | error e =>
    obtain ⟨what, rfl⟩ := decode_failsMalformed bytes e h
    exact ⟨what, rfl⟩

end Faults

/-! ### Fates -/

/-- What becomes of a datagram that a request takes from the socket. -/
inductive Fate where
  | skipped
  | reply (msg : OscMessage)
  | duplicate (msg : OscMessage)
  | buffered (msg : OscMessage)

namespace Fate

/-- Only a datagram that cannot be decoded is skipped; the others are what they decode to. -/
def Fits (bytes : Datagram) : Fate → Prop
  | skipped => ∃ what, decode (bytes.take maxPacketBytes) = malformed what
  | reply msg | duplicate msg | buffered msg => decode (bytes.take maxPacketBytes) = .ok msg

/-- The message that is appended to the buffer. -/
def kept : Fate → Option OscMessage
  | buffered msg => some msg
  | _ => none

/-- While the request waits, there is no reply to return or to compare with. -/
def WhileWaiting : Fate → Prop
  | skipped | buffered _ => True
  | _ => False

/-- While the request drains the socket behind its reply. -/
def WhileDraining (answer : OscMessage) : Fate → Prop
  | skipped | buffered _ => True
  | duplicate msg => msg.eq answer = true
  | reply _ => False

end Fate

/-- A datagram that was taken, and what became of it. -/
abbrev Entry := Datagram × Fate

/-- The buffer after some messages. -/
def Client.bufferAll (c : Client) (msgs : List OscMessage) : Client :=
  msgs.foldl Client.bufferUnsolicited c

/-- What was taken from the queue and from the datagrams that arrived, in their order; nothing else
happens to the client than that messages are appended to its buffer. -/
structure Taken (w w' : World) (arrived : List Datagram) (entries : List Entry) : Prop where
  /-- The datagrams that were taken, in order, and what is left of the queue. -/
  consumed : w.queue ++ arrived = entries.map Prod.fst ++ w'.queue
  /-- The fate of a datagram is one that it can have. -/
  fits : ∀ e ∈ entries, e.2.Fits e.1
  /-- Those that are kept are buffered in order. -/
  kept : w'.client = w.client.bufferAll (entries.filterMap fun e => e.2.kept)

variable {w w₁ w₂ : World} {arrived arrived' queue : List Datagram} {entries entries' : List Entry}

theorem Taken.refl (w : World) : Taken w w [] [] where
  consumed := List.append_nil _
  fits _ h := by cases h
  kept := rfl

theorem Taken.trans (h : Taken w w₁ arrived entries) (h' : Taken w₁ w₂ arrived' entries') :
    Taken w w₂ (arrived ++ arrived') (entries ++ entries') where
  consumed := by
    rw [← List.append_assoc, h.consumed, List.append_assoc, h'.consumed, List.map_append,
      List.append_assoc]
  fits e he := (List.mem_append.mp he).elim (h.fits e) (h'.fits e)
  kept := by
    rw [h'.kept, h.kept, List.filterMap_append, Client.bufferAll, Client.bufferAll,
      Client.bufferAll, List.foldl_append]

/-! ### One receive -/

theorem recv_cases (tick : Tick) (queue : List Datagram) :
    (∃ kind, tick.recv queue = (.error kind, queue ++ tick.arrivals)) ∨
      ∃ bytes queue', queue ++ tick.arrivals = bytes :: queue' ∧
        tick.recv queue = (.ok (bytes.take maxPacketBytes), queue') := by
  unfold Tick.recv
  cases hfailure : tick.failure with
  | some kind => exact Or.inl ⟨kind, rfl⟩
  | none =>
    cases hqueue : queue ++ tick.arrivals with
    | nil => exact Or.inl ⟨.timedOut, rfl⟩
    | cons bytes queue' => exact Or.inr ⟨bytes, queue', rfl, rfl⟩

/-- A receive without a datagram. -/
theorem Taken.nothing (w : World) (arrived : List Datagram) :
    Taken w { w with queue := w.queue ++ arrived } arrived [] where
  consumed := rfl
  fits _ h := by cases h
  kept := rfl

/-- A receive of a datagram that is not kept. -/
theorem Taken.pass {bytes : Datagram} (fate : Fate)
    (hqueue : w.queue ++ arrived = bytes :: queue) (hfits : fate.Fits bytes)
    (hkept : fate.kept = none) : Taken w { w with queue } arrived [(bytes, fate)] where
  consumed := hqueue
  fits e he := by
    cases List.mem_singleton.mp he
    exact hfits
  kept := by simp [hkept, Client.bufferAll]

/-- A receive of a datagram that is kept. -/
theorem Taken.keep {bytes : Datagram} {msg : OscMessage}
    (hqueue : w.queue ++ arrived = bytes :: queue)
    (hmsg : decode (bytes.take maxPacketBytes) = .ok msg) :
    Taken w { client := w.client.bufferUnsolicited msg, queue } arrived
      [(bytes, .buffered msg)] where
  consumed := hqueue
  fits e he := by
    cases List.mem_singleton.mp he
    exact hmsg
  kept := rfl

/-! ### The two loops -/

/-- The datagrams that arrive in the first rounds of the drain. -/
def arrivedBy : (ℕ → Tick) → ℕ → List Datagram
  | _, 0 => []
  | ticks, k + 1 => (ticks 0).arrivals ++ arrivedBy (fun i => ticks (i + 1)) k

/-- What became of the datagrams, for a request with this result: a request that fails had no reply,
and one that succeeds had one, with duplicates of it only behind it. -/
def Answered (entries : List Entry) : Except ClientError OscMessage → Prop
  | .error _ => ∀ e ∈ entries, e.2.WhileWaiting
  | .ok answer => ∃ waited bytes drained, entries = waited ++ (bytes, .reply answer) :: drained ∧
      (∀ e ∈ waited, e.2.WhileWaiting) ∧ ∀ e ∈ drained, e.2.WhileDraining answer

/-- Before a reply that comes later, a datagram was skipped or kept. -/
theorem Answered.cons {e : Entry} {result : Except ClientError OscMessage}
    (he : e.2.WhileWaiting) (h : Answered entries result) : Answered (e :: entries) result := by
  cases result with
  | error error =>
    intro e' he'
    rcases List.mem_cons.mp he' with rfl | hmem
    · exact he
    · exact h e' hmem
  | ok answer =>
    obtain ⟨waited, bytes, drained, rfl, hwaited, hdrained⟩ := h
    refine ⟨e :: waited, bytes, drained, rfl, ?_, hdrained⟩
    intro e' he'
    rcases List.mem_cons.mp he' with rfl | hmem
    · exact he
    · exact hwaited e' hmem

/-- Behind the reply, datagrams are drained. -/
theorem Answered.drain {answer : OscMessage} (h : Answered entries (.ok answer))
    (hmore : ∀ e ∈ entries', e.2.WhileDraining answer) :
    Answered (entries ++ entries') (.ok answer) := by
  obtain ⟨waited, bytes, drained, rfl, hwaited, hdrained⟩ := h
  refine ⟨waited, bytes, drained ++ entries', by simp, hwaited, ?_⟩
  intro e he
  exact (List.mem_append.mp he).elim (hdrained e) (hmore e)

/-- The wait takes datagrams until the first that matches. -/
theorem waitReply_taken (map : Session.PropertyMap) (addr : String) (ticks : List Tick)
    (w : World) :
    ∃ n entries, Taken w (waitReply map addr ticks w).2 ((ticks.take n).flatMap Tick.arrivals)
      entries ∧ Answered entries (waitReply map addr ticks w).1 := by
  induction ticks generalizing w with
  | nil => exact ⟨0, [], Taken.refl w, by simp [waitReply, Answered]⟩
  | cons tick ticks ih =>
    have harrived : ∀ n, ((tick :: ticks).take (n + 1)).flatMap Tick.arrivals =
        tick.arrivals ++ (ticks.take n).flatMap Tick.arrivals := fun n => rfl
    rw [waitReply]
    by_cases hexpired : tick.expired = true
    · rw [if_pos hexpired]
      exact ⟨0, [], Taken.refl w, by simp [Answered]⟩
    · rw [if_neg hexpired]
      rcases recv_cases tick w.queue with ⟨kind, hrecv⟩ | ⟨bytes, queue, hqueue, hrecv⟩
      · rw [hrecv]
        refine ⟨1, [], ?_, by simp [Answered]⟩
        rw [harrived, List.take_zero, List.flatMap_nil, List.append_nil]
        exact Taken.nothing w _
      · rw [hrecv]
        simp only
        cases hmsg : decode (bytes.take maxPacketBytes) with
        | error fault =>
          obtain ⟨what, rfl⟩ := decode_error hmsg
          simp only
          obtain ⟨n, entries, htaken, hanswered⟩ := ih { w with queue }
          refine ⟨n + 1, (bytes, .skipped) :: entries, ?_, hanswered.cons trivial⟩
          rw [harrived]
          exact (Taken.pass .skipped hqueue ⟨what, hmsg⟩ rfl).trans htaken
        | ok msg =>
          simp only
          by_cases hmatch : replyMatches map addr msg.addr = true
          · rw [if_pos hmatch]
            refine ⟨1, [(bytes, .reply msg)], ?_, [], bytes, [], rfl, by simp, by simp⟩
            rw [harrived, List.take_zero, List.flatMap_nil, List.append_nil]
            exact Taken.pass (.reply msg) hqueue hmsg rfl
          · rw [if_neg hmatch]
            obtain ⟨n, entries, htaken, hanswered⟩ :=
              ih { client := w.client.bufferUnsolicited msg, queue }
            refine ⟨n + 1, (bytes, .buffered msg) :: entries, ?_, hanswered.cons trivial⟩
            rw [harrived]
            exact (Taken.keep hqueue hmsg).trans htaken

/-- The drain takes datagrams up to the first that is neither a duplicate nor malformed. -/
theorem drainLoop_taken (answer : OscMessage) (n : ℕ) (ticks : ℕ → Tick) (w : World) :
    ∃ k entries, Taken w (drainLoop answer n ticks w) (arrivedBy ticks k) entries ∧
      ∀ e ∈ entries, e.2.WhileDraining answer := by
  induction n generalizing ticks w with
  | zero => exact ⟨0, [], Taken.refl w, by simp⟩
  | succ n ih =>
    rw [drainLoop]
    by_cases hexpired : (ticks 0).expired = true
    · rw [if_pos hexpired]
      exact ⟨0, [], Taken.refl w, by simp⟩
    · rw [if_neg hexpired]
      have hone : arrivedBy ticks 1 = (ticks 0).arrivals := List.append_nil _
      rcases recv_cases (ticks 0) w.queue with ⟨kind, hrecv⟩ | ⟨bytes, queue, hqueue, hrecv⟩
      · rw [hrecv]
        refine ⟨1, [], ?_, by simp⟩
        rw [hone]
        exact Taken.nothing w _
      · rw [hrecv]
        simp only
        obtain ⟨k, entries, htaken, hdrained⟩ := ih (fun i => ticks (i + 1)) { w with queue }
        cases hmsg : decode (bytes.take maxPacketBytes) with
        | error fault =>
          obtain ⟨what, rfl⟩ := decode_error hmsg
          refine ⟨k + 1, (bytes, .skipped) :: entries,
            (Taken.pass .skipped hqueue ⟨what, hmsg⟩ rfl).trans htaken, ?_⟩
          intro e he
          rcases List.mem_cons.mp he with rfl | hmem
          · trivial
          · exact hdrained e hmem
        | ok msg =>
          simp only
          by_cases hsame : msg.eq answer = true
          · rw [if_pos hsame]
            refine ⟨k + 1, (bytes, .duplicate msg) :: entries,
              (Taken.pass (.duplicate msg) hqueue hmsg rfl).trans htaken, ?_⟩
            intro e he
            rcases List.mem_cons.mp he with rfl | hmem
            · exact hsame
            · exact hdrained e hmem
          · rw [if_neg hsame]
            refine ⟨1, [(bytes, .buffered msg)], ?_, by simp [Fate.WhileDraining]⟩
            rw [hone]
            exact Taken.keep hqueue hmsg

theorem request_taken (map : Session.PropertyMap) (msg : OscMessage) (env : Env) (w : World) :
    ∃ n k entries, Taken w (request map msg env w).2
      ((env.wait.take n).flatMap Tick.arrivals ++ arrivedBy env.drain k) entries ∧
        Answered entries (request map msg env w).1 := by
  unfold request
  cases encode msg with
  | error e => exact ⟨0, 0, [], Taken.refl w, by simp [Answered]⟩
  | ok bytes =>
    cases env.sendFailure with
    | some kind => exact ⟨0, 0, [], Taken.refl w, by simp [Answered]⟩
    | none =>
      obtain ⟨n, entries, htaken, hanswered⟩ := waitReply_taken map msg.addr env.wait w
      simp only
      rcases hwait : waitReply map msg.addr env.wait w with ⟨result, w₁⟩
      rw [hwait] at htaken hanswered
      cases result with
      | error e =>
        refine ⟨n, 0, entries, ?_, hanswered⟩
        rw [arrivedBy, List.append_nil]
        exact htaken
      | ok answer =>
        simp only [drainDuplicateReplies]
        by_cases hrefused : env.drainRefused = true
        · rw [if_pos hrefused]
          refine ⟨n, 0, entries, ?_, hanswered⟩
          rw [arrivedBy, List.append_nil]
          exact htaken
        · rw [if_neg hrefused]
          obtain ⟨k, entries', htaken', hdrained⟩ :=
            drainLoop_taken answer duplicateDrainCap env.drain w₁
          exact ⟨n, k, entries ++ entries', htaken.trans htaken', hanswered.drain hdrained⟩

/-! ### The buffer over any calls -/

/-- What happens to the buffer, as a caller could record it. -/
inductive Event where
  | taken (e : Entry)
  | tookUnsolicited
  | tookUnsolicitedDropped

/-- What the buffer is for: the messages since it was last taken, and how many of them did not fit
since the counter was last taken. -/
structure Tally where
  /-- The messages that were appended to the buffer. -/
  appended : List OscMessage
  /-- How many of them it had to give up. -/
  evicted : ℕ

/-- A message for which the buffer has no room evicts one. -/
def Tally.append (t : Tally) (msg : OscMessage) : Tally where
  appended := t.appended ++ [msg]
  evicted := if unsolicitedCap ≤ t.appended.length then t.evicted + 1 else t.evicted

def Tally.step (t : Tally) : Event → Tally
  | .taken (_, .buffered msg) => t.append msg
  | .taken _ => t
  | .tookUnsolicited => { t with appended := [] }
  | .tookUnsolicitedDropped => { t with evicted := 0 }

def tally (t : Tally) (events : List Event) : Tally := events.foldl Tally.step t

/-- The calls, each with what became of the datagrams that it took. -/
inductive History (map : Session.PropertyMap) : World → List Call → List Event → Prop
  | done (w : World) : History map w [] []
  | request {w : World} {msg : OscMessage} {env : Env} {n k : ℕ} {entries : List Entry}
      {calls : List Call} {events : List Event}
      (taken : Taken w (request map msg env w).2
        ((env.wait.take n).flatMap Tick.arrivals ++ arrivedBy env.drain k) entries)
      (answered : Answered entries (request map msg env w).1)
      (rest : History map (request map msg env w).2 calls events) :
      History map w (.request msg env :: calls) (entries.map .taken ++ events)
  | takeUnsolicited {w : World} {calls : List Call} {events : List Event}
      (rest : History map (Call.takeUnsolicited.run map w) calls events) :
      History map w (.takeUnsolicited :: calls) (.tookUnsolicited :: events)
  | takeUnsolicitedDropped {w : World} {calls : List Call} {events : List Event}
      (rest : History map (Call.takeUnsolicitedDropped.run map w) calls events) :
      History map w (.takeUnsolicitedDropped :: calls) (.tookUnsolicitedDropped :: events)

/-- The buffer holds the newest messages, and the counter counts the others. -/
structure Holds (t : Tally) (c : Client) : Prop where
  /-- The buffer has the newest messages. -/
  newest : c.unsolicited = Window.newest unsolicitedCap t.appended
  /-- The counter has the number of the others, up to its width. -/
  dropped : c.unsolicitedDropped = UInt64.ofNat t.evicted

variable {t : Tally} {c : Client} {map : Session.PropertyMap}

theorem Holds.connect : Holds ⟨[], 0⟩ Client.connect :=
  ⟨(Window.newest_nil _).symm, rfl⟩

theorem Holds.append (h : Holds t c) (msg : OscMessage) :
    Holds (t.append msg) (c.bufferUnsolicited msg) := by
  have hpush : (c.bufferUnsolicited msg).unsolicited =
      Window.push unsolicitedCap c.unsolicited msg := by
    unfold Client.bufferUnsolicited Window.push
    split_ifs <;> rfl
  have hfull : unsolicitedCap ≤ c.unsolicited.length ↔ unsolicitedCap ≤ t.appended.length := by
    rw [h.newest]
    exact Window.full_iff
  constructor
  · rw [hpush, h.newest, Window.push_newest (by decide)]
    rfl
  · unfold Client.bufferUnsolicited Tally.append
    by_cases hroom : unsolicitedCap ≤ c.unsolicited.length
    · simp only [if_pos hroom, if_pos (hfull.mp hroom), h.dropped, UInt64.ofNat_add]
      rfl
    · simp only [if_neg hroom, if_neg (mt hfull.mpr hroom), h.dropped]

/-- The messages that a request kept are the ones that were appended. -/
theorem Holds.taken (h : Holds t c) (entries : List Entry) :
    Holds (tally t (entries.map .taken)) (c.bufferAll (entries.filterMap fun e => e.2.kept)) := by
  induction entries generalizing t c with
  | nil => exact h
  | cons e entries ih =>
    obtain ⟨bytes, fate⟩ := e
    cases fate with
    | buffered msg => exact ih (h.append msg)
    | skipped => exact ih h
    | reply msg => exact ih h
    | duplicate msg => exact ih h

/-- Calls keep the buffer and the counter as they are told. -/
theorem History.holds {calls : List Call} {events : List Event}
    (history : History map w calls events)
    (h : Holds t w.client) : Holds (tally t events) (runCalls map calls w).client := by
  induction history generalizing t with
  | done w => exact h
  | @request w msg env n k entries calls events taken answered rest ih =>
    have hnext := h.taken entries
    rw [← taken.kept] at hnext
    rw [tally, List.foldl_append]
    exact ih hnext
  | takeUnsolicited rest ih => exact ih ⟨(Window.newest_nil _).symm, h.dropped⟩
  | takeUnsolicitedDropped rest ih => exact ih ⟨h.newest, rfl⟩

theorem exists_history (map : Session.PropertyMap) (calls : List Call) (w : World) :
    ∃ events, History map w calls events := by
  induction calls generalizing w with
  | nil => exact ⟨[], .done w⟩
  | cons call calls ih =>
    obtain ⟨events, rest⟩ := ih (call.run map w)
    cases call with
    | request msg env =>
      obtain ⟨n, k, entries, taken, answered⟩ := request_taken map msg env w
      exact ⟨_, .request taken answered rest⟩
    | takeUnsolicited => exact ⟨_, .takeUnsolicited rest⟩
    | takeUnsolicitedDropped => exact ⟨_, .takeUnsolicitedDropped rest⟩

/-- **Every datagram is accounted for.**  Whatever datagrams a new client receives and in whatever
order it is called, each datagram that a request takes is skipped because it cannot be decoded,
returned as the reply, discarded as a duplicate of the reply behind it, or appended to the buffer;
and the buffer then holds the newest of the messages that were appended since it was last taken, and
the counter, which has 64 bits, the number of those that it evicted since it was last taken. -/
theorem request_accounting (map : Session.PropertyMap) (calls : List Call) (queue : List Datagram) :
    ∃ events, History map ⟨.connect, queue⟩ calls events ∧
      (runCalls map calls ⟨.connect, queue⟩).client.unsolicited =
        Window.newest unsolicitedCap (tally ⟨[], 0⟩ events).appended ∧
      (runCalls map calls ⟨.connect, queue⟩).client.unsolicitedDropped.toNat =
        (tally ⟨[], 0⟩ events).evicted % 2 ^ 64 := by
  obtain ⟨events, history⟩ := exists_history map calls ⟨.connect, queue⟩
  have h := history.holds Holds.connect
  refine ⟨events, history, h.newest, ?_⟩
  rw [h.dropped]
  exact UInt64.toNat_ofNat'

end Osc

end LibWing
