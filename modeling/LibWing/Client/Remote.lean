import LibWing.Console.Conserve
import LibWing.Console.Steady
import LibWing.Lib.Dialogue
import LibWing.Tools.Slot

/-!
# Client programs

A client program sets, toggles and gets nodes, one after the other.  It writes its requests and
keepalives, and takes the answers it waits for out of whatever else it hears.

* `Command`, `runProgram` : a program, and its run over a session;
* `Wrote` : the client operations that a session has written;
* `Matches`, `Expects` : which responses answer a request, and which requests are waited for;
* `Command.run_spec`, `runProgram_spec` : what a command and a program write and take.
-/

namespace LibWing

open Stateful

/-! ### Programs -/

namespace Console

/-- `toggle`. -/
def toggle (w : World) (id : Int32) : ConsoleM Unit := setMessage w (.ok (toggleMessage id))

end Console

/-- A call of a client program. -/
inductive Command where
  | setString (id : Int32) (value : String)
  | setFloat (id : Int32) (value : F32)
  | setInt (id : Int32) (value : Int32)
  | toggle (id : Int32)
  | getNodeData (id : Int32)
  | getNodeDefinition (id : Int32)
  deriving DecidableEq, Repr

namespace Command

/-- The operation that a command writes. -/
def op : Command → ClientOp
  | setString id value => .setString id value
  | setFloat id value => .setFloat id value
  | setInt id value => .setInt id value
  | toggle id => .toggle id
  | getNodeData id => .requestNodeData id
  | getNodeDefinition id => .requestNodeDefinition id

/-- A get of the root asks for everything, and so is not a get of a node. -/
def OfNode : Command → Prop
  | getNodeData id | getNodeDefinition id => id ≠ 0
  | _ => True

/-- A command over a session, and the response that it returns. -/
def run (w : World) (timeout : Time) : Command → ConsoleM (Option WingResponse)
  | setString id value => do
    Console.setString w id value
    return none
  | setFloat id value => do
    Console.setFloat w id value
    return none
  | setInt id value => do
    Console.setInt w id value
    return none
  | toggle id => do
    Console.toggle w id
    return none
  | getNodeData id => do
    let (data, _) ← Console.getNodeData w id timeout
    return some (.nodeData id data)
  | getNodeDefinition id => do
    let (d, _) ← Console.getNodeDefinition w id timeout
    return some (.nodeDef d)

end Command

/-- A program over a session.  It ends with the first call that fails. -/
def runProgram (w : World) (timeout : Time) : List Command → ConsoleM (List WingResponse)
  | [] => return []
  | command :: commands => do
    let response ← command.run w timeout
    let responses ← runProgram w timeout commands
    return response.toList ++ responses

/-! ### What is written -/

namespace Console

variable {w : World} {c c' c₁ : Console} {ops ops' : List ClientOp} {bytes bytes' : List UInt8}

theorem clientBytes_append (h : clientBytes ops = .ok bytes) (h' : clientBytes ops' = .ok bytes') :
    clientBytes (ops ++ ops') = .ok (bytes ++ bytes') := by
  induction ops generalizing bytes with
  | nil =>
    cases h
    exact h'
  | cons op ops ih =>
    obtain ⟨message, hm, h⟩ := Except.bind_eq_ok.1 h
    obtain ⟨rest, hr, h⟩ := Except.bind_eq_ok.1 h
    cases Except.pure_eq_ok.1 h
    rw [List.append_assoc]
    exact Except.bind_eq_ok.2 ⟨message, hm, Except.bind_eq_ok.2 ⟨_, ih hr, rfl⟩⟩

theorem clientBytes_singleton {op : ClientOp} (h : op.message = .ok bytes) :
    clientBytes [op] = .ok bytes :=
  Except.bind_eq_ok.2 ⟨bytes, h, Except.bind_eq_ok.2 ⟨[], rfl, by rw [List.append_nil]; rfl⟩⟩

/-- Since it was `c`, the console has written the messages of some operations. -/
def Wrote (c : Console) (ops : List ClientOp) (c' : Console) : Prop :=
  ∃ sent, c'.wsock = c.wsock ++ sent ∧ clientBytes ops = .ok sent.flatten

theorem Wrote.refl (c : Console) : Wrote c [] c := ⟨[], (List.append_nil _).symm, rfl⟩

theorem Wrote.trans (h : Wrote c ops c₁) (h' : Wrote c₁ ops' c') : Wrote c (ops ++ ops') c' := by
  obtain ⟨sent, hsent, hbytes⟩ := h
  obtain ⟨sent', hsent', hbytes'⟩ := h'
  refine ⟨sent ++ sent', ?_, ?_⟩
  · rw [hsent', hsent, List.append_assoc]
  · rw [List.flatten_append]
    exact clientBytes_append hbytes hbytes'

theorem Wrote.of_message {op : ClientOp} (hop : op.message = .ok bytes)
    (h : c'.wsock = c.wsock ++ [bytes]) : Wrote c [op] c' :=
  ⟨[bytes], h, by rw [List.flatten_singleton]; exact clientBytes_singleton hop⟩

theorem passive_wrote (c : Console) (ops : List ClientOp) :
    Passive fun c' => ∃ n, Wrote c (ops ++ List.replicate n .keepAlive) c' where
  main _ h := h
  tick h := h
  rsock _ _ h := h
  keepAlive := by
    rintro c' ⟨n, h⟩
    refine ⟨n + 1, ?_⟩
    rw [List.replicate_succ', ← List.append_assoc]
    exact h.trans (.of_message rfl rfl)

/-- A message that is written is the last one of the transport. -/
theorem setMessage_spec (hc : Ready c) (message : Result (List UInt8)) :
    Triple (· = c) (setMessage w message)
      (fun _ c' => Ticked c c' ∧ ∃ bytes, message = .ok bytes ∧ c'.wsock = c.wsock ++ [bytes])
      (fun _ _ => True) := by
  refine Triple.bind (Q := fun _ c' => c' = c) (Triple.bind_get fun s hs => ?_) fun _ => ?_
  · rw [hs, hc.streamTainted]
    exact Triple.pure fun _ h => h
  · cases message with
    | error e => exact Triple.throw fun _ _ => True.intro
    | ok bytes =>
      change Triple (· = c) (writeAll w bytes) _ _
      rintro c' rfl
      have hticked := writeAll_spec (w := w) bytes c' (Ticked.refl c')
      unfold writeAll at hticked ⊢
      cases hwrite : w.write c'.tick with
      | ok u =>
        rw [hwrite] at hticked
        exact ⟨hticked, bytes, rfl, rfl⟩
      | error kind => exact True.intro

theorem attendedGet_wrote {T : Type} {matcher : WingResponse → Except WingResponse T} (hc : Ready c)
    {op : ClientOp} (hop : op.message = .ok bytes) (timeout : Time) :
    Triple (· = c) (attendedGet w (do ensureStreamUsable; writeAll w bytes) matcher timeout)
      (fun _ c' => ∃ n, Wrote c (op :: List.replicate n .keepAlive) c') (fun _ _ => True) := by
  -- The request comes first, and the rest only reads.
  have hsplit : attendedGet w (do ensureStreamUsable; writeAll w bytes) matcher timeout =
      (setMessage w (.ok bytes) >>= fun _ => attendedGet w (pure ()) matcher timeout) := by
    simp only [attendedGet, setMessage, pure_bind, bind_assoc]
    rfl
  rw [hsplit]
  refine Triple.bind ((setMessage_spec hc _).conseq (fun _ h => h) (fun _ _ h => h)
    fun _ _ _ => True.intro) fun _ => ?_
  have hrest : Keeps _ (attendedGet w (pure ()) matcher timeout) :=
    (passive_wrote c [op]).steady.attendedGet matcher (Keeps.pure _) timeout
  refine Triple.conseq hrest ?_ (fun _ _ h => h) fun _ _ _ => True.intro
  rintro c' ⟨-, b, hb, hwsock⟩
  cases hb
  exact ⟨0, .of_message hop hwsock⟩

end Console

/-! ### What is taken -/

open Console Dialogue

/-- The requests that are waited for. -/
def Expects : NativeRequest → Prop
  | .get _ | .definition _ => True
  | _ => False

/-- The response answers the request. -/
def Matches : NativeRequest → WingResponse → Prop
  | .get id, .nodeData rid _ => rid = id
  | .definition id, .nodeDef d => d.id = id
  | _, _ => False

theorem matches_dataMatcher {id : Int32} {r : WingResponse} :
    Matches (.get id) r ↔ ∃ data, dataMatcher id r = .ok data := by
  cases r with
  | nodeData rid data => by_cases h : rid = id <;> simp [Matches, dataMatcher, h]
  | requestEnd => simp [Matches, dataMatcher]
  | nodeDef d => simp [Matches, dataMatcher]

theorem matches_definitionMatcher {id : Int32} {r : WingResponse} :
    Matches (.definition id) r ↔ ∃ d, definitionMatcher id r = .ok d := by
  cases r with
  | nodeDef d => by_cases h : d.id = id <;> simp [Matches, definitionMatcher, h]
  | requestEnd => simp [Matches, definitionMatcher]
  | nodeData rid data => simp [Matches, definitionMatcher]

variable {w : World} {c c' : Console} {timeout : Time} {command : Command} {commands : List Command}

theorem takes_keepAlives {requests : List NativeRequest} {heard taken : List WingResponse} (n : ℕ)
    (h : Dialogue.Takes Matches Expects requests heard taken) :
    Dialogue.Takes Matches Expects
      ((List.replicate n ClientOp.keepAlive).flatMap ClientOp.requests ++ requests)
        heard taken := by
  induction n with
  | zero => exact h
  | succ n ih => exact .silent (fun hr => hr) ih

/-- What a command that returns has done: it has written its operation and keepalives, and taken its
answer, if it waits for one. -/
structure Command.Done (command : Command) (c : Console) (response : Option WingResponse)
    (c' : Console) : Prop where
  /-- Another command can follow. -/
  ready : Ready c'
  /-- The operation can be encoded. -/
  admissible : command.op.Admissible
  /-- It was written, and keepalives behind it. -/
  wrote : ∃ n, Wrote c (command.op :: List.replicate n .keepAlive) c'
  /-- Whatever is taken afterwards, its responses have been taken before. -/
  takes : ∀ requests taken, Dialogue.Takes Matches Expects requests c'.remaining taken →
    Dialogue.Takes Matches Expects (command.op.requests ++ requests) c.remaining
      (response.toList ++ taken)

theorem Ready.of_ticked (hc : Ready c) (h : Ticked c c') : Ready c' :=
  hc.of_session h.toSameFrame.sameCall.toSameSession

theorem remaining_of_ticked (h : Ticked c c') : c'.remaining = c.remaining := by
  rw [remaining, remaining, h.pending, h.stream]

theorem Command.setMessage_done (hc : Ready c) {message : Result (List UInt8)}
    (hmessage : command.op.message = message)
    (hadmissible : ∀ b, message = .ok b → command.op.Admissible) {request : NativeRequest}
    (hrequests : command.op.requests = [request]) (hsilent : ¬ Expects request) :
    Triple (· = c) (do setMessage w message; return none : ConsoleM (Option WingResponse))
      (fun response c' => command.Done c response c') (fun _ _ => True) := by
  refine Triple.bind (setMessage_spec hc message) fun _ => Triple.pure ?_
  rintro c' ⟨hticked, bytes, hbytes, hwsock⟩
  refine ⟨Ready.of_ticked hc hticked, hadmissible bytes hbytes,
    ⟨0, .of_message (hmessage.trans hbytes) hwsock⟩, fun requests taken h => ?_⟩
  rw [hrequests, ← remaining_of_ticked hticked]
  exact .silent hsilent h

/-- A string that has a message is not too long. -/
theorem setString_admissible {id : Int32} {value : String} {bytes : List UInt8}
    (h : setStringMessage id value = .ok bytes) : (ClientOp.setString id value).Admissible := by
  cases htoken : encodeValue (.string value) with
  | ok token => exact (encodeValue_isOk (.string value)).1 ⟨token, htoken⟩ value rfl
  | error e =>
    rw [setStringMessage, setValueMessage, appendValueMessage, htoken] at h
    cases h

theorem Command.attendedGet_done {T : Type} {matcher : WingResponse → Except WingResponse T}
    {bytes : List UInt8} {request : NativeRequest} (answer : T → WingResponse) (hc : Ready c)
    (hm : Returns matcher) (hmessage : command.op.message = .ok bytes)
    (hadmissible : command.op.Admissible) (hrequests : command.op.requests = [request])
    (hexpects : Expects request) (hmatch : ∀ r, Matches request r ↔ ∃ a, matcher r = .ok a)
    (hanswer : ∀ r a, matcher r = .ok a → r = answer a) :
    Triple (· = c) (do
        let (a, _) ← attendedGet w (do ensureStreamUsable; writeAll w bytes) matcher timeout
        return some (answer a))
      (fun response c' => command.Done c response c') (fun _ _ => True) := by
  have hget := attendedGet_spec hm hc (request_spec (w := w) hc bytes) timeout
  have hwrote := @attendedGet_wrote w c bytes T matcher hc _ hmessage timeout
  refine Triple.bind ((hget.and hwrote).conseq (fun _ h => ⟨h, h⟩) (fun _ _ h => h)
    fun _ _ _ => True.intro) ?_
  rintro ⟨a, buffered⟩
  refine Triple.pure ?_
  rintro c' ⟨⟨hready, hanswered⟩, hwritten⟩
  obtain ⟨r, hr, hconsumed⟩ := hanswered.answer
  obtain rfl := hanswer r a hr
  refine ⟨hready, hadmissible, hwritten, fun requests taken h => ?_⟩
  rw [hrequests, hconsumed.remaining, List.append_assoc]
  -- What was passed over does not match, since the matcher refused it.
  refine .matched hexpects (fun x hx hmatches => ?_) ((hmatch _).2 ⟨a, hr⟩) h
  obtain ⟨b, hb⟩ := (hmatch x).1 hmatches
  rw [hanswered.unrelated x hx] at hb
  cases hb

/-- **One command.** -/
theorem Command.run_spec (hc : Ready c) (hnode : command.OfNode) :
    Triple (· = c) (command.run w timeout) (fun response c' => command.Done c response c')
      (fun _ _ => True) := by
  cases command with
  | setString id value =>
    exact setMessage_done hc rfl (fun _ h => setString_admissible h) rfl fun h => h
  | setFloat id value => exact setMessage_done hc rfl (fun _ _ => True.intro) rfl fun h => h
  | setInt id value => exact setMessage_done hc rfl (fun _ _ => True.intro) rfl fun h => h
  | toggle id => exact setMessage_done hc rfl (fun _ _ => True.intro) rfl fun h => h
  | getNodeData id =>
    exact attendedGet_done _ hc (returns_dataMatcher id) rfl True.intro (if_neg hnode) True.intro
      (fun _ => matches_dataMatcher) fun _ _ => dataMatcher_ok
  | getNodeDefinition id =>
    exact attendedGet_done .nodeDef hc (returns_definitionMatcher id) rfl True.intro
      (if_neg hnode) True.intro (fun _ => matches_definitionMatcher) fun _ _ => definitionMatcher_ok

/-- What a program that returns has done. -/
structure Performed (commands : List Command) (c : Console) (responses : List WingResponse)
    (c' : Console) (ops : List ClientOp) : Prop where
  /-- The operations can be encoded. -/
  admissible : ∀ op ∈ ops, op.Admissible
  /-- They were written, and nothing else. -/
  wrote : Wrote c ops c'
  /-- The operations of the commands in order, with keepalives between them. -/
  order : ops.filter (· ≠ .keepAlive) = commands.map Command.op
  /-- The responses are what their requests take off the stream. -/
  takes : Dialogue.Takes Matches Expects (ops.flatMap ClientOp.requests) c.remaining responses

theorem Command.op_ne_keepAlive (command : Command) : command.op ≠ .keepAlive := by
  cases command <;> exact ClientOp.noConfusion

/-- **A program.** -/
theorem runProgram_spec (hc : Ready c) (hnodes : ∀ command ∈ commands, command.OfNode) :
    Triple (· = c) (runProgram w timeout commands)
      (fun responses c' => ∃ ops, Performed commands c responses c' ops) (fun _ _ => True) := by
  induction commands generalizing c with
  | nil =>
    refine Triple.pure ?_
    rintro c' rfl
    exact ⟨[], ⟨fun _ h => absurd h List.not_mem_nil, Wrote.refl c', rfl, .ended _⟩⟩
  | cons command commands ih =>
    refine Triple.bind (command.run_spec hc (hnodes _ List.mem_cons_self)) fun response => ?_
    intro c₁ hdone
    refine Triple.bind (ih hdone.ready fun e he => hnodes e (List.mem_cons_of_mem _ he))
      (fun responses => Triple.pure ?_) c₁ rfl
    rintro c' ⟨ops, hperformed⟩
    -- The keepalives of a command come behind it, before the next one.
    obtain ⟨n, hwrote⟩ := hdone.wrote
    refine ⟨command.op :: List.replicate n .keepAlive ++ ops, ?_,
      hwrote.trans hperformed.wrote, ?_, ?_⟩
    · intro op hop
      rcases List.mem_append.1 hop with h | h
      · rcases List.mem_cons.1 h with rfl | h
        · exact hdone.admissible
        · rw [List.eq_of_mem_replicate h]
          exact True.intro
      · exact hperformed.admissible op h
    · rw [List.cons_append, List.filter_cons_of_pos (by simpa using command.op_ne_keepAlive),
        List.filter_append, List.filter_eq_nil_iff.2, List.nil_append, hperformed.order,
        List.map_cons]
      intro op hop
      rw [List.eq_of_mem_replicate hop]
      simp
    · rw [List.cons_append, List.flatMap_cons, List.flatMap_append]
      exact hdone.takes _ _ (takes_keepAlives n hperformed.takes)

end LibWing
