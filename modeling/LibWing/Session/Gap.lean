import LibWing.Session.Machine

/-!
# What a reconnect says of the meters

A `SessionGap` says whether meters were invalidated.  The source derives it from the meter socket,
which is bound before the subscription is written, and which outlives sessions.

* `seqRun` : a sequential run of `request_meter` and `reconnect`;
* `subscribed` : whether a `request_meter` has succeeded on the session in place;
* `metersInvalidated_iff` : the runs whose gaps tell the truth.
-/

namespace LibWing

open Interleave

namespace Session

/-! ### Sequential runs -/

/-- A call of a sequential run. -/
inductive SeqOp where
  | requestMeter (meters : List Meter)
  | reconnect (policy : ReconnectPolicy)

/-- What a call returned. -/
inductive Answer where
  | requested (result : Result UInt16)
  | reconnected (result : Result ReconnectOutcome)
  deriving DecidableEq

/-- The program of a call, by thread `t`. -/
def seqProgram (cfg : Config) (t : ℕ) : SeqOp → Thread Answer
  | .requestMeter meters => do
    let result ← requestMeter t meters
    return .requested result
  | .reconnect policy => do
    let result ← reconnect t cfg.reconnectable policy
    return .reconnected result

/-- A call: the thread that makes it, and what the environment does in each of its sections. -/
structure SeqCall where
  /-- The thread that makes it. -/
  thread : ℕ
  /-- What is called. -/
  op : SeqOp
  /-- The environment of each of its sections. -/
  envs : List Env

/-- Calls one after the other, if they can be made: what was shared before each, and its answer. -/
def seqRun (cfg : Config) : Shared → List SeqCall → Option (List (Shared × Answer))
  | _, [] => some []
  | s, call :: calls =>
    match (seqProgram cfg call.thread call.op).runSolo call.envs s with
    | none => none
    | some (answer, s') => (seqRun cfg s' calls).map fun history => (s, answer) :: history

/-- Whether a `request_meter` has succeeded on the session in place, after one more answer.  A
reconnect with attempts has replaced the session. -/
def subscribedStep (subscribed : Bool) : Answer → Bool
  | .requested (.ok _) => true
  | .reconnected (.ok outcome) => subscribed && outcome.attempts == 0
  | _ => subscribed

def subscribed (answers : List Answer) : Bool := answers.foldl subscribedStep false

/-- Every reconnect that replaced a session says that meters were invalidated exactly if a
`request_meter` had succeeded on that session. -/
def TellsTruth (history : List (Shared × Answer)) : Prop :=
  ∀ p before outcome, history[p]? = some (before, .reconnected (.ok outcome)) →
    outcome.attempts ≠ 0 →
      (outcome.gap.metersInvalidated = true ↔ subscribed ((history.take p).map Prod.snd) = true)

/-- No session is replaced on which the meter socket was bound, then or earlier, and nothing
subscribed. -/
def NoIdleSocket (history : List (Shared × Answer)) : Prop :=
  ∀ p before outcome, history[p]? = some (before, .reconnected (.ok outcome)) →
    outcome.attempts ≠ 0 → before.hasMeterSocket = true →
      subscribed ((history.take p).map Prod.snd) = true

/-! ### What the calls do to the socket -/

/-- The socket and its flag are left alone. -/
def SameSocket (s s' : Shared) : Prop :=
  s'.hasMeterSocket = s.hasMeterSocket ∧ s'.mtrs.port = s.mtrs.port

theorem SameSocket.refl (s : Shared) : SameSocket s s := ⟨rfl, rfl⟩

/-- A gap says what the flag of the socket says. -/
def GapOf (s : Shared) (result : Result ReconnectOutcome) : Prop :=
  ∀ outcome, result = .ok outcome → outcome.gap.metersInvalidated = s.hasMeterSocket

variable {s : Shared} {t : ℕ}

/-- A call that leaves the socket alone, and then goes on. -/
theorem SameSocket.bind {α β : Type} {p : Thread α} {f : α → Thread β} {s₁ : Shared}
    {Q : β → Shared → Prop} (hp : p.Solo s₁ fun _ s' => SameSocket s s')
    (hf : ∀ a s', SameSocket s s' → (f a).Solo s' Q) : (p >>= f).Solo s₁ Q :=
  Prog.Solo.bind hp hf

theorem announce_solo {s₁ : Shared} (h : SameSocket s s₁) :
    announce.Solo s₁ fun _ s' => SameSocket s s' :=
  Prog.Solo.atomically fun _ => h

theorem swapStreams_solo {s₁ : Shared} (h : SameSocket s s₁) (since : ℕ) (rsock : List Poll) :
    (swapStreams t since rsock).Solo s₁ fun _ s' => SameSocket s s' :=
  Prog.Solo.atomically fun _ => h

theorem resetMeters_solo {s₁ : Shared} (h : SameSocket s s₁) :
    resetMeters.Solo s₁ fun _ s' => SameSocket s s' :=
  Prog.Solo.atomically fun _ => h

theorem publish_solo {s₁ : Shared} (h : SameSocket s s₁) (since : ℕ) :
    (publish t since).Solo s₁ fun _ s' => SameSocket s s' :=
  Prog.Solo.atomically fun _ => h

theorem lockReadGate_solo {s₁ : Shared} (h : SameSocket s s₁) :
    (lockReadGate t).Solo s₁ fun _ s' => SameSocket s s' :=
  Prog.Solo.await fun _ _ => h

theorem install_solo {s₁ : Shared} (h : SameSocket s s₁) (since : ℕ) (rsock : List Poll)
    (firmware : Option String) :
    (install t since rsock firmware).Solo s₁ fun _ s' => SameSocket s s' := by
  refine SameSocket.bind (announce_solo h) fun _ s₂ h => ?_
  refine SameSocket.bind (lockReadGate_solo h) fun _ s₃ h => ?_
  refine SameSocket.bind (swapStreams_solo h since rsock) fun _ s₄ h => ?_
  refine SameSocket.bind (resetMeters_solo h) fun _ s₅ h => ?_
  by_cases hfirmware : firmware.isSome = true
  · rw [if_pos hfirmware]
    exact SameSocket.bind (Prog.Solo.atomically fun _ => h) fun _ s₆ h => publish_solo h since
  · rw [if_neg hfirmware]
    exact publish_solo h since

theorem sessionGap_solo {s₁ : Shared} (h : SameSocket s s₁) :
    sessionGap.Solo s₁ fun gap s' => SameSocket s s' ∧ gap.metersInvalidated = s.hasMeterSocket :=
  fun _ _ => ⟨h, h.1⟩

theorem attemptLoop_solo (since : ℕ) (policy : ReconnectPolicy) (left made : ℕ) (backoff : Time)
    (lastErr : Error) {s₁ : Shared} (h : SameSocket s s₁) :
    (attemptLoop t since policy left made backoff lastErr).Solo s₁ fun result s' =>
      SameSocket s s' ∧ GapOf s result := by
  induction left generalizing made backoff lastErr s₁ with
  | zero =>
    refine ⟨h, ?_⟩
    rintro outcome ⟨⟩
  | succ left ih =>
    rw [attemptLoop]
    refine SameSocket.bind (Prog.Solo.atomically fun _ => h) fun handshake s₁ h => ?_
    cases handshake with
    | ok rsock =>
      simp only
      refine SameSocket.bind (Prog.Solo.atomically fun _ => h) fun firmware s₂ h => ?_
      refine SameSocket.bind (install_solo h since rsock firmware) fun _ s₃ h => ?_
      refine Prog.Solo.bind (sessionGap_solo h) fun gap s₄ hgap => ?_
      obtain ⟨h, hflag⟩ := hgap
      refine SameSocket.bind (Prog.Solo.atomically fun _ => h) fun _ s₅ h => ?_
      refine ⟨h, ?_⟩
      rintro outcome ⟨⟩
      exact hflag
    | error err =>
      simp only
      by_cases hleft : left = 0
      · rw [if_pos hleft]
        exact ih _ _ _ h
      · rw [if_neg hleft]
        exact SameSocket.bind (Prog.Solo.atomically fun _ => h) fun _ s₂ h => ih _ _ _ h

theorem finishReconnect_solo {s₁ : Shared} (h : SameSocket s s₁) (since : ℕ)
    {result : Result ReconnectOutcome} (hgap : GapOf s result) :
    (finishReconnect t since result).Solo s₁ fun result s' => SameSocket s s' ∧ GapOf s result :=
  Prog.Solo.atomically fun _ => ⟨h, hgap⟩

theorem reconnect_solo (reconnectable : Bool) (policy : ReconnectPolicy) :
    (reconnect t reconnectable policy).Solo s fun result s' =>
      SameSocket s s' ∧ GapOf s result := by
  unfold reconnect
  cases reconnectable with
  | false =>
    refine ⟨SameSocket.refl s, ?_⟩
    rintro outcome ⟨⟩
  | true =>
    have h := SameSocket.refl s
    refine SameSocket.bind (Prog.Solo.atomically fun _ => h) fun sampled s₁ h => ?_
    obtain ⟨since, generation⟩ := sampled
    refine SameSocket.bind (Prog.Solo.atomically fun _ => h) fun _ s₂ h => ?_
    refine SameSocket.bind (Prog.Solo.await fun _ _ => h) fun _ s₃ h => ?_
    refine SameSocket.bind (Prog.Solo.atomically fun _ => h) fun _ s₄ h => ?_
    refine SameSocket.bind (Prog.Solo.atomically fun _ => h) fun current s₅ h => ?_
    by_cases hgeneration : current ≠ generation
    · rw [if_pos hgeneration]
      refine Prog.Solo.bind (sessionGap_solo h) fun gap s₆ hgap => ?_
      refine finishReconnect_solo hgap.1 since ?_
      rintro outcome ⟨⟩
      exact hgap.2
    · rw [if_neg hgeneration]
      exact Prog.Solo.bind (attemptLoop_solo since policy _ _ _ _ h) fun result s₆ hresult =>
        finishReconnect_solo hresult.1 since hresult.2

/-- A socket that is there has its flag set. -/
def Flagged (s : Shared) : Prop := s.mtrs.port.isSome = true → s.hasMeterSocket = true

/-- What `request_meter` does to the flag: it may set it, and has if it succeeds. -/
structure Requested (s s' : Shared) (result : Result UInt16) : Prop where
  /-- The flag tells of the socket. -/
  flagged : Flagged s'
  /-- The socket stays. -/
  kept : s.hasMeterSocket = true → s'.hasMeterSocket = true
  /-- A request that succeeds has bound it. -/
  bound : ∀ id, result = .ok id → s'.hasMeterSocket = true

theorem Requested.refused (h : Flagged s) (e : Error) : Requested s s (.error e) where
  flagged := h
  kept hflag := hflag
  bound id hid := by cases hid

/-- The socket is there already, or is bound now, or cannot be bound. -/
theorem meterSocket_requested (h : Flagged s) (env : Env) :
    Requested s (meterSocket env s).2 (meterSocket env s).1 := by
  unfold meterSocket
  cases hport : s.mtrs.port with
  | some port =>
    have hflag := h (by rw [hport]; rfl)
    exact ⟨h, fun hs => hs, fun _ _ => hflag⟩
  | none =>
    simp only
    cases env.bind with
    | error kind => exact .refused h _
    | ok port => exact ⟨fun _ => rfl, fun _ => rfl, fun _ _ => rfl⟩

/-- A request that fails behind the socket leaves it bound. -/
theorem Requested.failed {s' : Shared} {result : Result UInt16} (h : Requested s s' result)
    (e : Error) : Requested s s' (.error e) where
  flagged := h.flagged
  kept := h.kept
  bound id hid := by cases hid

theorem subscribe_solo (h : Flagged s) (meters : List Meter) :
    (subscribe t meters).Solo s fun result s' => Requested s s' result := by
  refine Prog.Solo.atomically fun env => ?_
  have hsocket := meterSocket_requested h env
  rcases hbind : meterSocket env s with ⟨socket, s₁⟩
  rw [hbind] at hsocket
  cases socket with
  | error e => simpa only [hbind] using hsocket
  | ok port =>
    simp only
    cases subscribeMessage (max s.mtrs.nextMeterId 1) port meters with
    | error e => exact hsocket.failed e
    | ok buf =>
      simp only
      cases env.write with
      | error kind => exact hsocket.failed (.io kind)
      | ok _ =>
        have hflag : s₁.hasMeterSocket = true := hsocket.bound port rfl
        exact ⟨fun _ => hflag, fun _ => hflag, fun _ _ => hflag⟩

theorem requestMeter_solo (h : Flagged s) (meters : List Meter) :
    (requestMeter t meters).Solo s fun result s' => Requested s s' result := by
  intro env _
  change Prog.Solo (if s.reader.streamTainted = true then _ else _) s _
  by_cases htainted : s.reader.streamTainted = true
  · rw [if_pos htainted]
    exact .refused h _
  · rw [if_neg htainted]
    cases encodeMeters [] meters with
    | error e => exact .refused h _
    | ok encoded => exact subscribe_solo h meters

/-! ### Over a run -/

/-- The flag is set if the socket is there, and if something has subscribed on the session in
place. -/
structure GapInv (s : Shared) (answers : List Answer) : Prop where
  /-- The flag tells of the socket. -/
  flagged : Flagged s
  /-- Who has subscribed has bound it. -/
  subscribed : subscribed answers = true → s.hasMeterSocket = true

theorem subscribed_append (answers : List Answer) (answer : Answer) :
    subscribed (answers ++ [answer]) = subscribedStep (subscribed answers) answer :=
  List.foldl_append

/-- A call keeps the invariant, and a gap says what the flag said before the call. -/
theorem GapInv.call {answers : List Answer} (h : GapInv s answers) (cfg : Config) (op : SeqOp) :
    (seqProgram cfg t op).Solo s fun answer s' => GapInv s' (answers ++ [answer]) ∧
      ∀ result, answer = .reconnected result → GapOf s result := by
  cases op with
  | requestMeter meters =>
    refine Prog.Solo.bind (requestMeter_solo h.flagged meters) fun result s' hreq => ?_
    refine ⟨⟨hreq.flagged, fun hsub => ?_⟩, by rintro result ⟨⟩⟩
    rw [subscribed_append] at hsub
    cases result with
    | ok id => exact hreq.bound id rfl
    | error e => exact hreq.kept (h.subscribed hsub)
  | reconnect policy =>
    refine Prog.Solo.bind (reconnect_solo cfg.reconnectable policy) fun result s' hrec => ?_
    obtain ⟨⟨hflag, hport⟩, hgap⟩ := hrec
    refine ⟨⟨?_, fun hsub => ?_⟩, ?_⟩
    · rw [Flagged, hflag, hport]
      exact h.flagged
    · rw [hflag]
      rw [subscribed_append] at hsub
      refine h.subscribed ?_
      cases result with
      | error e => exact hsub
      | ok outcome => exact (Bool.and_eq_true _ _ ▸ hsub).1
    · rintro result ⟨⟩
      exact hgap

theorem seqRun_inv {cfg : Config} {calls : List SeqCall} {answers : List Answer}
    {history : List (Shared × Answer)} (h : GapInv s answers)
    (hrun : seqRun cfg s calls = some history) :
    ∀ p before answer, history[p]? = some (before, answer) →
      GapInv before (answers ++ (history.take p).map Prod.snd) ∧
        ∀ result, answer = .reconnected result → GapOf before result := by
  induction calls generalizing s answers history with
  | nil =>
    cases hrun
    intro p before answer hp
    cases hp
  | cons call calls ih =>
    rw [seqRun] at hrun
    cases hcall : (seqProgram cfg call.thread call.op).runSolo call.envs s with
    | none =>
      rw [hcall] at hrun
      cases hrun
    | some q =>
      obtain ⟨answer, s'⟩ := q
      rw [hcall] at hrun
      obtain ⟨rest, hrest, rfl⟩ := Option.map_eq_some_iff.mp hrun
      obtain ⟨hnext, hgap⟩ := Prog.Solo.of_runSolo (h.call cfg call.op) hcall
      intro p before answer' hp
      cases p with
      | zero =>
        cases hp
        rw [List.take_zero, List.map_nil, List.append_nil]
        exact ⟨h, hgap⟩
      | succ p =>
        have hlater := ih hnext hrest p before answer' hp
        rwa [List.append_assoc] at hlater

theorem GapInv.new (now : Time) (rsock : List Poll) : GapInv (.new now rsock) [] where
  flagged h := by cases h
  subscribed h := by cases h

/-- **When a gap tells the truth about the meters.**  In every sequential run of `request_meter` and
`reconnect` from a new console, whatever fails in it, each reconnect that replaced a session says
that meters were invalidated exactly if a `request_meter` had succeeded on that session, if and only
if no session was replaced on which the meter socket was bound, then or earlier, and nothing
subscribed. -/
theorem metersInvalidated_iff {cfg : Config} {now : Time} {rsock : List Poll}
    {calls : List SeqCall} {history : List (Shared × Answer)}
    (hrun : seqRun cfg (.new now rsock) calls = some history) :
    TellsTruth history ↔ NoIdleSocket history := by
  have hinv := seqRun_inv (GapInv.new now rsock) hrun
  constructor
  · intro htruth p before outcome hp hattempts hflag
    have hgap := (hinv p before _ hp).2 _ rfl outcome rfl
    rw [← hgap] at hflag
    exact (htruth p before outcome hp hattempts).mp hflag
  · intro hidle p before outcome hp hattempts
    obtain ⟨hbefore, hgap⟩ := hinv p before _ hp
    rw [hgap _ rfl outcome rfl]
    exact ⟨hidle p before outcome hp hattempts, hbefore.subscribed⟩

/-- A call of thread 0 in which nothing fails. -/
def calmCall (op : SeqOp) (sections : ℕ) : SeqCall :=
  ⟨0, op, List.replicate sections (.calm [])⟩

/-- A subscription, and a reconnect. -/
def requestThenReconnect : List SeqCall :=
  [calmCall (.requestMeter [.rta]) 2, calmCall (.reconnect ⟨1, 0, 0⟩) 15]

/-- The gap says that the subscription is gone. -/
theorem requestThenReconnect_truth : ∃ history,
    seqRun ⟨true, fun _ => false⟩ (.new 0 []) requestThenReconnect = some history ∧
      history.map Prod.snd = [.requested (.ok 1), .reconnected (.ok ⟨1, ⟨true, true, true⟩⟩)] ∧
      TellsTruth history := by
  have hanswers : (seqRun ⟨true, fun _ => false⟩ (.new 0 []) requestThenReconnect).map
      (fun history => history.map Prod.snd) =
        some [.requested (.ok 1), .reconnected (.ok ⟨1, ⟨true, true, true⟩⟩)] := by decide +kernel
  obtain ⟨history, hrun, hlast⟩ := Option.map_eq_some_iff.mp hanswers
  refine ⟨history, hrun, hlast, (metersInvalidated_iff hrun).mpr ?_⟩
  intro p before outcome hp _ _
  have hanswer : (history.map Prod.snd)[p]? = some (.reconnected (.ok outcome)) := by
    rw [List.getElem?_map, hp]
    rfl
  rw [List.map_take, hlast]
  rw [hlast] at hanswer
  rcases p with _ | _ | p
  · cases hanswer
  · decide
  · cases hanswer

/-- A subscription that is not written, and a reconnect. -/
def unwrittenThenReconnect : List SeqCall :=
  [⟨0, .requestMeter [.rta], [.calm [], { Env.calm [] with write := .error (.other 32) }]⟩,
    calmCall (.reconnect ⟨1, 0, 0⟩) 15]

/-- The gap says that a subscription is gone, where there was none. -/
theorem unwrittenThenReconnect_lies :
    ¬ ∀ (cfg : Config) (now : Time) (rsock : List Poll) (calls : List SeqCall)
        (history : List (Shared × Answer)), seqRun cfg (.new now rsock) calls = some history →
      TellsTruth history := by
  intro hall
  have hanswers : (seqRun ⟨true, fun _ => false⟩ (.new 0 []) unwrittenThenReconnect).map
      (fun history => history.map Prod.snd) =
        some [.requested (.error (.io (.other 32))),
          .reconnected (.ok ⟨1, ⟨true, true, true⟩⟩)] := by decide +kernel
  obtain ⟨history, hrun, hlast⟩ := Option.map_eq_some_iff.mp hanswers
  have htruth := hall _ _ _ _ history hrun
  have hanswer : (history.map Prod.snd)[1]? =
      some (.reconnected (.ok ⟨1, ⟨true, true, true⟩⟩)) := by
    rw [hlast]
    rfl
  rw [List.getElem?_map] at hanswer
  obtain ⟨entry, hp, hentry⟩ := Option.map_eq_some_iff.mp hanswer
  obtain ⟨before, answer⟩ := entry
  obtain rfl : answer = _ := hentry
  have hsubscribed := (htruth 1 before _ hp (by decide)).mp rfl
  rw [List.map_take, hlast] at hsubscribed
  cases hsubscribed

end Session

end LibWing
