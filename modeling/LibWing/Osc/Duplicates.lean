import LibWing.Osc.Accounting

/-!
# Duplicates behind a reply

Behind its reply, a request drains the socket, so that a duplicate of the reply does not answer the
next request.  The drain stops at the first message that is no duplicate, and does not look behind
it.

* `Osc.drainLoop_quiet` : what a drain leaves in the queue;
* `Osc.drained_iff` : the queues that it clears of duplicates.
-/

namespace LibWing

namespace Osc

/-- A datagram that says what the reply said: a message that is equal to it, or the same. -/
def Duplicate (reply : OscMessage) (bytes : Datagram) : Prop :=
  ∃ msg, decode (bytes.take maxPacketBytes) = .ok msg ∧ (msg.eq reply = true ∨ msg = reply)

/-- A datagram that the drain takes and goes on: a message equal to the reply, or none at all. -/
def passedOver (reply : OscMessage) (bytes : Datagram) : Bool :=
  match decode (bytes.take maxPacketBytes) with
  | .ok msg => msg.eq reply
  | .error _ => true

/-- The deadline is ahead, nothing arrives and nothing fails. -/
structure Tick.Quiet (tick : Tick) : Prop where
  /-- The deadline has not passed. -/
  expired : tick.expired = false
  /-- Nothing arrives. -/
  arrivals : tick.arrivals = []
  /-- Nothing fails. -/
  failure : tick.failure = none

variable {map : Session.PropertyMap} {reply : OscMessage} {w : World}

theorem Tick.Quiet.recv_nil {tick : Tick} (h : tick.Quiet) :
    tick.recv [] = (.error .timedOut, []) := by
  rw [Tick.recv, h.failure, h.arrivals]
  rfl

theorem Tick.Quiet.recv_cons {tick : Tick} (h : tick.Quiet) (bytes : Datagram)
    (queue : List Datagram) :
    tick.recv (bytes :: queue) = (.ok (bytes.take maxPacketBytes), queue) := by
  rw [Tick.recv, h.failure, h.arrivals, List.append_nil]

/-- A drain that is not cut short leaves what is behind the first message that is no duplicate. -/
theorem drainLoop_quiet {n : ℕ} {ticks : ℕ → Tick} (hquiet : ∀ i, (ticks i).Quiet)
    (hlen : w.queue.length ≤ n) :
    (drainLoop reply n ticks w).queue = (w.queue.dropWhile (passedOver reply)).tail := by
  induction n generalizing ticks w with
  | zero =>
    have hnil : w.queue = [] := List.eq_nil_of_length_eq_zero (Nat.le_zero.mp hlen)
    rw [drainLoop, hnil]
    rfl
  | succ n ih =>
    rw [drainLoop, if_neg (by simp [(hquiet 0).expired])]
    cases hqueue : w.queue with
    | nil =>
      rw [(hquiet 0).recv_nil]
      rfl
    | cons bytes queue =>
      rw [(hquiet 0).recv_cons]
      simp only
      rw [hqueue, List.length_cons] at hlen
      have hrest : (drainLoop reply n (fun i => ticks (i + 1)) { w with queue }).queue =
          (queue.dropWhile (passedOver reply)).tail :=
        ih (w := { w with queue }) (fun i => hquiet (i + 1)) (Nat.le_of_succ_le_succ hlen)
      rw [List.dropWhile_cons]
      cases hmsg : decode (bytes.take maxPacketBytes) with
      | error fault =>
        obtain ⟨what, rfl⟩ := decode_error hmsg
        rw [if_pos (by simp [passedOver, hmsg])]
        exact hrest
      | ok msg =>
        simp only [passedOver, hmsg]
        by_cases hsame : msg.eq reply = true
        · rw [if_pos hsame, if_pos hsame]
          exact hrest
        · rw [if_neg hsame, if_neg hsame]
          rfl

/-- The datagrams that wait behind the reply when it is matched. -/
def behindReply (map : Session.PropertyMap) (msg : OscMessage) (env : Env) (w : World) :
    List Datagram := (waitReply map msg.addr env.wait w).2.queue

/-- A request that succeeds has found its reply in the wait. -/
theorem request_eq_ok {msg : OscMessage} {env : Env} (h : (request map msg env w).1 = .ok reply) :
    (waitReply map msg.addr env.wait w).1 = .ok reply ∧
      (request map msg env w).2 =
        drainDuplicateReplies env reply (waitReply map msg.addr env.wait w).2 := by
  unfold request at h ⊢
  cases hencode : encode msg with
  | error e =>
    rw [hencode] at h
    cases h
  | ok bytes =>
    rw [hencode] at h
    cases hsend : env.sendFailure with
    | some kind =>
      rw [hsend] at h
      cases h
    | none =>
      rw [hsend] at h
      simp only at h ⊢
      rcases hwait : waitReply map msg.addr env.wait w with ⟨result, w₁⟩
      rw [hwait] at h
      cases result with
      | error e => cases h
      | ok answer =>
        cases h
        exact ⟨rfl, rfl⟩

theorem reply_from_queue {msg : OscMessage} {env : Env}
    (h : (request map msg env w).1 = .ok reply) (hquiet : ∀ tick ∈ env.wait, tick.arrivals = []) :
    ∃ bytes ∈ w.queue, decode (bytes.take maxPacketBytes) = .ok reply := by
  obtain ⟨n, entries, htaken, hanswered⟩ := waitReply_taken map msg.addr env.wait w
  rw [(request_eq_ok h).1] at hanswered
  obtain ⟨waited, bytes, drained, rfl, -, -⟩ := hanswered
  have hnothing : (env.wait.take n).flatMap Tick.arrivals = [] := by
    rw [List.flatMap_eq_nil_iff]
    exact fun tick htick => hquiet tick (List.mem_of_mem_take htick)
  have hconsumed := htaken.consumed
  rw [hnothing, List.append_nil] at hconsumed
  refine ⟨bytes, ?_, htaken.fits (bytes, .reply reply) (by simp)⟩
  rw [hconsumed]
  simp

/-- **When the drain clears the queue of duplicates.**  Of the datagrams that wait behind the reply,
as many as the drain may take, none that is left is a duplicate of the reply exactly if no duplicate
waits behind the first message that is none; and then no duplicate that was waiting answers a
following request. -/
theorem drained_iff {msg : OscMessage} {env : Env} (h : (request map msg env w).1 = .ok reply)
    (hlen : (behindReply map msg env w).length ≤ duplicateDrainCap)
    (hset : env.drainRefused = false) (hquiet : ∀ i, (env.drain i).Quiet) :
    ((∀ bytes ∈ (request map msg env w).2.queue, ¬ Duplicate reply bytes) ↔
      ∀ bytes ∈ ((behindReply map msg env w).dropWhile (passedOver reply)).tail,
        ¬ Duplicate reply bytes) ∧
    ((∀ bytes ∈ ((behindReply map msg env w).dropWhile (passedOver reply)).tail,
        ¬ Duplicate reply bytes) →
      ∀ msg' env' reply', (∀ tick ∈ env'.wait, tick.arrivals = []) →
        (request map msg' env' (request map msg env w).2).1 = .ok reply' →
          ¬ (reply'.eq reply = true ∨ reply' = reply)) := by
  have hleft : (request map msg env w).2.queue =
      ((behindReply map msg env w).dropWhile (passedOver reply)).tail := by
    rw [(request_eq_ok h).2, drainDuplicateReplies, if_neg (by simp [hset])]
    exact drainLoop_quiet hquiet hlen
  rw [← hleft]
  refine ⟨Iff.rfl, ?_⟩
  intro hnone msg' env' reply' hnothing hnext hsame
  obtain ⟨bytes, hbytes, hdecode⟩ := reply_from_queue hnext hnothing
  exact hnone bytes hbytes ⟨reply', hdecode, hsame⟩

/-! ### An event between two replies -/

/-- A tick during which nothing happens. -/
def quietTick : Tick := ⟨false, [], none⟩

/-- A request that waits for up to two datagrams. -/
def quietEnv : Env where
  sendFailure := none
  wait := [quietTick, quietTick]
  drainRefused := false
  drain := fun _ => quietTick

/-- The datagrams of the addresses `/a` and `/b`. -/
def datagramA : Datagram := [0x2f, 0x61, 0, 0]

def datagramB : Datagram := [0x2f, 0x62, 0, 0]

def noMap : Session.PropertyMap := ⟨[], List.nodup_nil⟩

/-- A duplicate right behind the reply is drained. -/
theorem drained_duplicate : datagramA ∉ (request noMap ⟨"/a", []⟩ quietEnv
    ⟨.connect, [datagramA, datagramA, datagramB]⟩).2.queue := by
  have hrest : ((behindReply noMap ⟨"/a", []⟩ quietEnv
      ⟨.connect, [datagramA, datagramA, datagramB]⟩).dropWhile (passedOver ⟨"/a", []⟩)).tail =
        [] := by decide +kernel
  have hnone := (@drained_iff noMap ⟨"/a", []⟩ ⟨.connect, [datagramA, datagramA, datagramB]⟩
    ⟨"/a", []⟩ quietEnv (by decide +kernel) (by decide +kernel) rfl
    fun _ => ⟨rfl, rfl, rfl⟩).1.mpr (by rw [hrest]; simp)
  intro hmem
  refine hnone datagramA hmem ⟨⟨"/a", []⟩, ?_, Or.inr rfl⟩
  decide +kernel

/-- A duplicate behind an event is left, and answers the next request. -/
theorem duplicate_left :
    ¬ ∀ (map : Session.PropertyMap) (msg : OscMessage) (env : Env) (w : World)
        (reply : OscMessage), (request map msg env w).1 = .ok reply →
      (behindReply map msg env w).length ≤ duplicateDrainCap → env.drainRefused = false →
      (∀ i, (env.drain i).Quiet) →
        ∀ bytes ∈ (request map msg env w).2.queue, ¬ Duplicate reply bytes := by
  intro h
  have hnone := h noMap ⟨"/a", []⟩ quietEnv ⟨.connect, [datagramA, datagramB, datagramA]⟩
    ⟨"/a", []⟩ (by decide +kernel) (by decide +kernel) rfl fun _ => ⟨rfl, rfl, rfl⟩
  have hqueue : (request noMap ⟨"/a", []⟩ quietEnv
      ⟨.connect, [datagramA, datagramB, datagramA]⟩).2.queue = [datagramA] := by decide +kernel
  rw [hqueue] at hnone
  refine hnone datagramA (List.mem_singleton_self _) ⟨⟨"/a", []⟩, ?_, Or.inr rfl⟩
  decide +kernel

end Osc

end LibWing
