import LibWing.Osc.Builders
import LibWing.Osc.Duplicates

/-!
# Requests with a policy

A datagram may be lost, so a request is repeated when no reply comes.  A relative write is not: it
would be applied twice.

* `Osc.requestWithPolicy` : `request_with_policy`;
* `Osc.Retried` : what it does is what some plain requests do, one after the other;
* `Osc.requestWithPolicy_retried` : that is so, in every environment of every attempt.
-/

namespace LibWing

namespace Osc

/-- `RequestPolicy`; the timeout of an attempt is part of its environment. -/
structure RequestPolicy where
  /-- How often the request may be sent. -/
  attempts : UInt32

/-- `policy.attempts.max(1)`. -/
def RequestPolicy.limit (policy : RequestPolicy) : UInt32 := max policy.attempts 1

/-- How a request with a policy fails. -/
inductive PolicyError where
  | client (e : ClientError)
  | retriesExhausted (attempts : UInt32)
  deriving DecidableEq, Repr

/-- `is_relative_write`. -/
def isRelativeWrite (msg : OscMessage) : Bool := decide (msg.args = [.int (-1)])

/-- The loop of `request_with_policy`, from an attempt on, with some more attempts to come. -/
def attemptLoop (map : Session.PropertyMap) (msg : OscMessage) (policy : RequestPolicy) :
    ℕ → UInt32 → (ℕ → Env) → World → Except PolicyError OscMessage × World
  | 0, _, _, w => (.error (.retriesExhausted policy.attempts), w)
  | n + 1, attempt, envs, w =>
    match request map msg (envs 0) w with
    | (.ok reply, w) => (.ok reply, w)
    | (.error .timeout, w) =>
      if attempt < policy.attempts then
        attemptLoop map msg policy n (attempt + 1) (fun i => envs (i + 1)) w
      else (.error (.retriesExhausted attempt), w)
    | (.error e, w) => (.error (.client e), w)

/-- `request_with_policy`: `envs` are the environments of its attempts. -/
def requestWithPolicy (map : Session.PropertyMap) (msg : OscMessage) (policy : RequestPolicy)
    (envs : ℕ → Env) (w : World) : Except PolicyError OscMessage × World :=
  if isRelativeWrite msg then
    match request map msg (envs 0) w with
    | (.ok reply, w) => (.ok reply, w)
    | (.error e, w) => (.error (.client e), w)
  else attemptLoop map msg policy policy.limit.toNat 1 envs w

/-! ### Attempts -/

variable {map : Session.PropertyMap} {msg : OscMessage} {policy : RequestPolicy} {envs : ℕ → Env}
  {w : World}

theorem waitReply_matches {addr : String} {ticks : List Tick} {reply : OscMessage}
    (h : (waitReply map addr ticks w).1 = .ok reply) : replyMatches map addr reply.addr = true := by
  induction ticks generalizing w with
  | nil => cases h
  | cons tick ticks ih =>
    unfold waitReply at h
    split_ifs at h with hexpired
    split at h
    · cases h
    · split at h
      · exact ih h
      · cases h
      · split_ifs at h with hmatches
        · cases h
          exact hmatches
        · exact ih h

/-- The client and its socket when an attempt starts. -/
def worldAt (map : Session.PropertyMap) (msg : OscMessage) (envs : ℕ → Env) (w : World) (k : ℕ) :
    World := runCalls map ((List.range k).map fun i => .request msg (envs i)) w

theorem worldAt_succ (k : ℕ) :
    worldAt map msg envs w (k + 1) = (request map msg (envs k) (worldAt map msg envs w k)).2 := by
  rw [worldAt, List.range_succ, List.map_append, runCalls, List.foldl_append]
  rfl

theorem worldAt_shift (k : ℕ) :
    worldAt map msg (fun i => envs (i + 1)) (request map msg (envs 0) w).2 k =
      worldAt map msg envs w (k + 1) := by
  induction k with
  | zero => rfl
  | succ k ih => rw [worldAt_succ, ih, ← worldAt_succ]

/-- The outcome of an attempt. -/
def attempt (map : Session.PropertyMap) (msg : OscMessage) (envs : ℕ → Env) (w : World) (k : ℕ) :
    Except ClientError OscMessage := (request map msg (envs k) (worldAt map msg envs w k)).1

theorem attempt_shift (k : ℕ) :
    attempt map msg (fun i => envs (i + 1)) (request map msg (envs 0) w).2 k =
      attempt map msg envs w (k + 1) := by
  rw [attempt, worldAt_shift, attempt]

theorem toggle_isRelativeWrite {path : String} (h : toggle path = .ok msg) (port : UInt16) :
    isRelativeWrite msg = true ∧ isRelativeWrite (withReplyPort port msg) = true := by
  unfold toggle setInt messageAt at h
  cases hpath : validateAddressPath path with
  | error e =>
    rw [hpath] at h
    cases h
  | ok u =>
    rw [hpath] at h
    cases h
    exact ⟨rfl, rfl⟩

/-- What a request with a policy gives when its last attempt is the one with the number `last`. -/
def Outcome (policy : RequestPolicy) (msg : OscMessage) (last : ℕ) :
    Except ClientError OscMessage → Except PolicyError OscMessage → Prop
  | .ok reply, result => result = .ok reply
  | .error .timeout, result =>
    if isRelativeWrite msg then result = .error (.client .timeout)
    else last + 1 = policy.limit.toNat ∧
      result = .error (.retriesExhausted policy.limit)
  | .error e, result => result = .error (.client e)

/-- A request with a policy is some plain requests, `last` of which timed out before the last
one. -/
structure Retried (map : Session.PropertyMap) (msg : OscMessage) (policy : RequestPolicy)
    (envs : ℕ → Env) (w : World) (last : ℕ) : Prop where
  /-- The client and its socket are as the plain requests leave them. -/
  world : (requestWithPolicy map msg policy envs w).2 = worldAt map msg envs w (last + 1)
  /-- The attempts before the last one timed out. -/
  timeouts : ∀ k < last, attempt map msg envs w k = .error .timeout
  /-- The last one gives the result. -/
  result : Outcome policy msg last (attempt map msg envs w last)
    (requestWithPolicy map msg policy envs w).1
  /-- A relative write is attempted once, and everything else as often as the policy allows. -/
  bound : last < if isRelativeWrite msg then 1 else policy.limit.toNat
  /-- So a toggle is attempted once, with a reply port or without. -/
  toggled : ∀ path plain port, toggle path = .ok plain →
    msg = plain ∨ msg = withReplyPort port plain → last = 0
  /-- A reply that is returned answers the request. -/
  answers : ∀ reply, (requestWithPolicy map msg policy envs w).1 = .ok reply →
    replyMatches map msg.addr reply.addr = true

theorem limit_cases (policy : RequestPolicy) :
    (policy.attempts = 0 ∧ policy.limit = 1) ∨
      (policy.attempts ≠ 0 ∧ policy.limit = policy.attempts) := by
  have hdef : policy.limit = if policy.attempts ≤ 1 then 1 else policy.attempts := rfl
  rw [hdef]
  by_cases h : policy.attempts = 0
  · left
    rw [h]
    exact ⟨rfl, rfl⟩
  · right
    refine ⟨h, ?_⟩
    have hne : policy.attempts.toNat ≠ 0 := fun h0 => h (UInt32.toNat_inj.1 h0)
    split_ifs with hle
    · rw [UInt32.le_iff_toNat_le, UInt32.toNat_one] at hle
      refine UInt32.toNat_inj.1 ?_
      rw [UInt32.toNat_one]
      omega
    · rfl

/-- The outcome of an attempt, as it is handed on. -/
def LoopOutcome (policy : RequestPolicy) (a : ℕ) :
    Except ClientError OscMessage → Except PolicyError OscMessage → Prop
  | .ok reply, result => result = .ok reply
  | .error .timeout, result =>
    a = policy.limit.toNat ∧ result = .error (.retriesExhausted policy.limit)
  | .error e, result => result = .error (.client e)

theorem LoopOutcome.of_ok {a : ℕ} {x : Except ClientError OscMessage} {reply : OscMessage}
    (h : LoopOutcome policy a x (.ok reply)) : x = .ok reply := by
  rcases x with (fault | kind | _) | answer
  · cases h
  · cases h
  · cases h.2
  · cases h
    rfl

theorem attemptLoop_spec {n : ℕ} {a : UInt32} (hone : 1 ≤ a.toNat)
    (hcount : a.toNat + n = policy.limit.toNat) :
    ∃ last ≤ n,
      (attemptLoop map msg policy (n + 1) a envs w).2 = worldAt map msg envs w (last + 1) ∧
      (∀ k < last, attempt map msg envs w k = .error .timeout) ∧
      LoopOutcome policy (a.toNat + last) (attempt map msg envs w last)
        (attemptLoop map msg policy (n + 1) a envs w).1 := by
  have hmax := limit_cases policy
  induction n generalizing a envs w with
  | zero =>
    -- The last attempt.
    refine ⟨0, le_rfl, ?_⟩
    have hlast : ¬ a < policy.attempts := by
      rw [UInt32.lt_iff_toNat_lt]
      rcases hmax with ⟨hzero, hmax⟩ | ⟨-, hmax⟩
      · rw [hzero, UInt32.toNat_zero]
        omega
      · rw [hmax] at hcount
        omega
    have ha : a = policy.limit := UInt32.toNat_inj.1 hcount
    have hw : worldAt map msg envs w 1 = (request map msg (envs 0) w).2 := rfl
    have ho : attempt map msg envs w 0 = (request map msg (envs 0) w).1 := rfl
    rw [hw, ho, attemptLoop]
    rcases request map msg (envs 0) w with ⟨result, w'⟩
    rcases result with (fault | kind | _) | reply
    · exact ⟨rfl, by simp, rfl⟩
    · exact ⟨rfl, by simp, rfl⟩
    · simp only [hlast, if_false]
      exact ⟨trivial, by simp, hcount, by rw [ha]⟩
    · exact ⟨rfl, by simp, rfl⟩
  | succ n ih =>
    have hw : worldAt map msg envs w 1 = (request map msg (envs 0) w).2 := rfl
    have ho : attempt map msg envs w 0 = (request map msg (envs 0) w).1 := rfl
    have hmore : a < policy.attempts := by
      rw [UInt32.lt_iff_toNat_lt]
      rcases hmax with ⟨-, hmax⟩ | ⟨-, hmax⟩
      · rw [hmax, UInt32.toNat_one] at hcount
        omega
      · rw [hmax] at hcount
        omega
    -- The counter is below the number of attempts, so that it does not wrap.
    have hnext : (a + 1).toNat = a.toNat + 1 := by
      have hlt := policy.attempts.toNat_lt
      rw [UInt32.lt_iff_toNat_lt] at hmore
      rw [UInt32.toNat_add, UInt32.toNat_one, Nat.mod_eq_of_lt (by omega)]
    obtain ⟨last, hle, hworld, htimeouts, houtcome⟩ :=
      @ih (fun i => envs (i + 1)) (request map msg (envs 0) w).2 (a + 1) (by omega) (by omega)
    rw [attemptLoop]
    rcases hrequest : request map msg (envs 0) w with ⟨result, w'⟩
    rw [hrequest] at hw ho
    rcases result with (fault | kind | _) | reply
    · exact ⟨0, Nat.zero_le _, hw.symm, by simp, by rw [ho]; rfl⟩
    · exact ⟨0, Nat.zero_le _, hw.symm, by simp, by rw [ho]; rfl⟩
    · -- The attempt timed out, and the next one is made.
      simp only [hmore, if_true]
      refine ⟨last + 1, by omega, ?_, fun k hk => ?_, ?_⟩
      · rw [← worldAt_shift, ← hworld, hrequest]
      · cases k with
        | zero => exact ho
        | succ k => rw [← attempt_shift]; exact htimeouts k (by omega)
      · rw [← attempt_shift, show a.toNat + (last + 1) = (a + 1).toNat + last by omega]
        rw [hrequest] at houtcome
        rw [hrequest]
        exact houtcome
    · exact ⟨0, Nat.zero_le _, hw.symm, by simp, by rw [ho]; rfl⟩

theorem Retried.of_relative (h : isRelativeWrite msg = true) : Retried map msg policy envs w 0 := by
  have hdef : requestWithPolicy map msg policy envs w =
      ((request map msg (envs 0) w).1.mapError .client, (request map msg (envs 0) w).2) := by
    rw [requestWithPolicy, if_pos h]
    rcases request map msg (envs 0) w with ⟨e | reply, w'⟩ <;> rfl
  have ho : attempt map msg envs w 0 = (request map msg (envs 0) w).1 := rfl
  refine ⟨by rw [hdef]; rfl, by simp, ?_, by simp [h], fun _ _ _ _ _ => rfl, fun reply hreply => ?_⟩
  · rw [hdef, ho]
    rcases (request map msg (envs 0) w).1 with (fault | kind | _) | reply
    · rfl
    · rfl
    · simp [Outcome, h, Except.mapError]
    · rfl
  · rw [hdef] at hreply
    cases hrequest : (request map msg (envs 0) w).1 with
    | error e =>
      rw [hrequest] at hreply
      cases hreply
    | ok answer =>
      rw [hrequest] at hreply
      cases hreply
      exact waitReply_matches (request_eq_ok hrequest).1

/-- **A request with a policy is plain requests.**  Each attempt but the last one timed out; the
last one gives the result, which is the exhaustion of the attempts only if all that the policy
allows were made; a relative write is attempted once. -/
theorem requestWithPolicy_retried (map : Session.PropertyMap) (msg : OscMessage)
    (policy : RequestPolicy) (envs : ℕ → Env) (w : World) :
    ∃ last, Retried map msg policy envs w last := by
  cases hrelative : isRelativeWrite msg with
  | true => exact ⟨0, .of_relative hrelative⟩
  | false =>
    have hpos : 1 ≤ policy.limit.toNat := by
      rcases limit_cases policy with ⟨-, hmax⟩ | ⟨hne, hmax⟩
      · rw [hmax, UInt32.toNat_one]
      · rw [hmax]
        exact Nat.pos_of_ne_zero fun h0 => hne (UInt32.toNat_inj.1 h0)
    obtain ⟨n, hn⟩ := Nat.exists_eq_add_of_le hpos
    -- The loop starts with its first attempt.
    obtain ⟨last, hle, hworld, htimeouts, houtcome⟩ :=
      @attemptLoop_spec map msg policy envs w n 1 (by simp) (by rw [UInt32.toNat_one]; omega)
    have hdef : requestWithPolicy map msg policy envs w =
        attemptLoop map msg policy (n + 1) 1 envs w := by
      rw [requestWithPolicy, hrelative, if_neg Bool.false_ne_true, hn, Nat.add_comm]
    rw [← hdef] at hworld houtcome
    refine ⟨last, hworld, htimeouts, ?_, ?_, fun path plain port htoggle hmsg => ?_,
      fun reply hreply => ?_⟩
    · rcases ho : attempt map msg envs w last with (fault | kind | _) | reply
      · rw [ho] at houtcome
        exact houtcome
      · rw [ho] at houtcome
        exact houtcome
      · rw [ho] at houtcome
        obtain ⟨hlast, hresult⟩ := houtcome
        rw [UInt32.toNat_one] at hlast
        simp only [Outcome, hrelative, Bool.false_eq_true, if_false]
        exact ⟨by omega, hresult⟩
      · rw [ho] at houtcome
        exact houtcome
    · rw [hrelative, if_neg Bool.false_ne_true]
      omega
    · obtain ⟨hplain, hported⟩ := toggle_isRelativeWrite htoggle port
      rcases hmsg with rfl | rfl
      · cases hplain.symm.trans hrelative
      · cases hported.symm.trans hrelative
    · rw [hreply] at houtcome
      exact waitReply_matches (request_eq_ok houtcome.of_ok).1

end Osc

end LibWing
