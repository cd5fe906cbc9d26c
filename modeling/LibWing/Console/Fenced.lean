import LibWing.Console.Exact
import LibWing.Console.Reachable

/-!
# Failed captures

A capture that fails may leave the rest of its reply in the stream.  After a timeout the stream is
tainted, and nothing is read from it until a reconnect has replaced it.  After any other failure it
is not: then the rest of the reply is what the next capture returns.

* `WellFormed` : the tokens that the parser accepts, definitions included;
* `Intact` : a stream that is well formed up to the end of the reply, or as far as it goes;
* `Run`, `Fenced` : the calls on a session, and what is to hold of them: between a failed capture
  and one that succeeds there is a reconnect;
* `events_fenced` : it holds if the stream is intact whenever a capture begins.
-/

namespace LibWing

open Stateful

/-! ### Streams without faults -/

/-- The tokens the parser accepts, the end of a reply apart. -/
inductive WellFormed : List UInt8 → Prop
  | token (t : ReplyToken) (h : t.isUtf8 = true) : WellFormed t.bytes
  | nodeDef {a b : UInt8} {body : List UInt8} {d : WingNodeDef} (hne : BigEndian.fromBe16 a b ≠ 0)
      (hlen : body.length = (BigEndian.fromBe16 a b).toNat)
      (hbody : WingNodeDef.fromBytes body = .ok d) : WellFormed (0xdf :: a :: b :: body)
  | longNodeDef {a b c d : UInt8} {body : List UInt8} {def' : WingNodeDef}
      (hlen : body.length = (BigEndian.fromBe32 a b c d).toNat)
      (hmax : body.length ≤ maxNodeDefBytes)
      (hbody : WingNodeDef.fromBytes body = .ok def') :
      WellFormed (0xdf :: 0 :: 0 :: a :: b :: c :: d :: body)

theorem Takes.nodeDefBody {m : ℕ} {id : Int32} {len : UInt32} {body : List UInt8} {d : WingNodeDef}
    (hlen : body.length = len.toNat) (hmax : body.length ≤ maxNodeDefBytes)
    (hbody : WingNodeDef.fromBytes body = .ok d) :
    Takes m (if len.toNat > maxNodeDefBytes then MonadExcept.throw .invalidData
      else do
        let raw ← Stream.source.readBytes len.toNat
        let d ← ofExcept (WingNodeDef.fromBytes raw)
        return some (WingResponse.nodeDef d)) body id true (some (.nodeDef d)) id := by
  rw [if_neg (by omega), ← hlen]
  refine (Takes.readBytes body id).bind_nil ?_
  rw [hbody]
  exact Takes.pure _ id

/-- The parser takes a well-formed token. -/
theorem WellFormed.takes {bytes : List UInt8} (h : WellFormed bytes) (m : ℕ) (id : Int32) :
    ∃ r id', r ≠ some .requestEnd ∧ Takes m Stream.source.readToken bytes id true r id' := by
  have hop : Opcode.ofByte 0xdf = .nodeDef := by decide
  cases h with
  | token t hutf8 =>
    have htakes := takes_readToken m t id
    rw [hutf8] at htakes
    exact ⟨t.response id, t.nodeId id, t.response_ne_requestEnd id, htakes⟩
  | @nodeDef a b body d hne hlen hbody =>
    refine ⟨some (.nodeDef d), id, nofun, Takes.readToken ?_⟩
    simp only [Source.token, hop]
    have hlength : Takes (m + 1) Stream.source.readDefLength [a, b] id true
        (BigEndian.fromBe16 a b).toUInt32 id := by
      refine (Takes.readU16 a b id).bind_nil ?_
      rw [if_neg hne]
      exact Takes.pure _ id
    have hsize : body.length = (BigEndian.fromBe16 a b).toUInt32.toNat := by
      rw [UInt16.toNat_toUInt32, hlen]
    have hmax : body.length ≤ maxNodeDefBytes := by
      have hlt := (BigEndian.fromBe16 a b).toNat_lt
      rw [hlen]
      exact (Nat.le_of_lt hlt).trans (by decide)
    exact hlength.bind (Takes.nodeDefBody hsize hmax hbody)
  | @longNodeDef a b c d body def' hlen hmax hbody =>
    refine ⟨some (.nodeDef def'), id, nofun, Takes.readToken ?_⟩
    simp only [Source.token, hop]
    have hzero : BigEndian.fromBe16 0 0 = 0 := by decide
    have hlength : Takes (m + 1) Stream.source.readDefLength ([0, 0] ++ [a, b, c, d]) id true
        (BigEndian.fromBe32 a b c d) id := by
      refine (Takes.readU16 0 0 id).bind ?_
      rw [if_pos hzero]
      exact Takes.readU32 a b c d id
    exact hlength.bind (Takes.nodeDefBody hlen hmax hbody)

theorem framed_length {cmd : UInt8} {payload : List UInt8} (h : framed cmd payload = true) :
    payload.length ≤ 257 := by
  have hshort := (cmd - 0x7f).toNat_lt
  have hname := (cmd - 0xbf).toNat_lt
  unfold framed at h
  cases hop : Opcode.ofByte cmd with
  | longString =>
    simp only [hop] at h
    cases payload with
    | nil => cases h
    | cons len bytes =>
      have hlen := len.toNat_lt
      simp only [decide_eq_true_eq] at h
      rw [List.length_cons]
      omega
  | requestEnd | nodeDef | unknown =>
    simp only [hop] at h
    cases h
  | _ =>
    simp only [hop, decide_eq_true_eq] at h
    omega

/-- A token is much shorter than a capture may be. -/
theorem WellFormed.length_le {bytes : List UInt8} (h : WellFormed bytes) :
    bytes.length ≤ maxNativeResponseBytes := by
  have hmax : maxNativeResponseBytes = 16777216 := rfl
  have hdef : maxNodeDefBytes = 1048576 := rfl
  cases h with
  | token t hutf8 =>
    have hlen := framed_length t.framed
    rw [ReplyToken.bytes, List.length_cons]
    omega
  | @nodeDef a b body d hne hlen hbody =>
    have hlt := (BigEndian.fromBe16 a b).toNat_lt
    simp only [List.length_cons]
    omega
  | longNodeDef hlen hle hbody =>
    simp only [List.length_cons]
    omega

/-- The stream has ended, or fails, but not because it is malformed. -/
def Stops : List (Except Error Decoded) → Prop
  | [] => True
  | .ok _ :: _ => False
  | .error e :: _ => e ≠ .invalidData

/-- A stream of which a capture has taken `n` bytes is well formed up to the end of the reply, or as
far as it goes, and the capture does not get too long. -/
inductive Intact : ℕ → List (Except Error Decoded) → Prop
  | requestEnd {n : ℕ} (rest : List (Except Error Decoded)) (hn : n < maxNativeResponseBytes) :
      Intact n (audioSymbol 0xde :: rest)
  | token {n : ℕ} {bytes : List UInt8} {rest : List (Except Error Decoded)} (h : WellFormed bytes)
      (hn : n + bytes.length ≤ maxNativeResponseBytes) (hrest : Intact (n + bytes.length) rest) :
      Intact n (bytes.map audioSymbol ++ rest)
  /-- The stream stops before a token, or inside one. -/
  | stops {n : ℕ} {bytes more : List UInt8} {rest : List (Except Error Decoded)}
      (h : WellFormed (bytes ++ more)) (hmore : more ≠ [])
      (hn : n + bytes.length ≤ maxNativeResponseBytes)
      (hrest : Stops rest) : Intact n (bytes.map audioSymbol ++ rest)

/-- The first stream is the second one, but stops before the bytes `more`. -/
structure CutShort (more : List UInt8) (rest : List (Except Error Decoded)) (s s₁ : Stream) :
    Prop where
  /-- They agree up to there, within the limit. -/
  symbols : ∃ bytes : List UInt8, s.symbols = bytes.map audioSymbol ++ rest ∧
    s₁.symbols = bytes.map audioSymbol ++ more.map audioSymbol ∧
    s.captured + bytes.length ≤ maxNativeResponseBytes
  /-- They are at the same node. -/
  nodeId : s.nodeId = s₁.nodeId
  /-- The first has consumed no less. -/
  captured : s₁.captured ≤ s.captured

theorem source_cutShort (more : List UInt8) {rest : List (Except Error Decoded)} (h : Stops rest) :
    Source.Related (fun {_} x y => CancelSim (CutShort more rest) (fun _ _ _ => True)
      (fun e _ => e ≠ .invalidData) x y) Stream.source Stream.source where
  toCongruence := CancelSim.congruence _ _ _
  invalidData := CancelSim.throw fun _ _ _ => trivial
  currentNodeId := fun s₁ s hs => ⟨s₁, congrArg (EStateM.Result.ok · s₁) hs.nodeId.symm, hs⟩
  setCurrentNodeId := fun id s₁ s hs =>
    ⟨{ s₁ with nodeId := id }, rfl, ⟨hs.symbols, rfl, hs.captured⟩⟩
  decodeNext := by
    rintro s₁ s hs
    obtain ⟨bytes, hsym, hsym₁, hroom⟩ := hs.symbols
    have hcap := hs.captured
    cases bytes with
    | nil =>
      rw [List.map_nil, List.nil_append] at hsym
      rcases rest with _ | ⟨_ | _, _⟩
      · simp only [Stream.source, Stream.next, hsym]
        exact Or.inl Error.noConfusion
      · simp only [Stream.source, Stream.next, hsym]
        exact Or.inl h
      · exact h.elim
    | cons byte bytes =>
      rw [List.length_cons] at hroom
      rw [List.map_cons, List.cons_append] at hsym hsym₁
      have hroom' : ¬ s.captured ≥ maxNativeResponseBytes := by omega
      have hroom₁ : ¬ s₁.captured ≥ maxNativeResponseBytes := by omega
      simp only [Stream.source, Stream.next, hsym, hsym₁, hroom', hroom₁, audioSymbol, ↓reduceIte]
      exact ⟨_, rfl, ⟨bytes, rfl, rfl, by change s.captured + 1 + bytes.length ≤ _; omega⟩,
        hs.nodeId, Nat.succ_le_succ hcap⟩

theorem readToken_stops {bytes more : List UInt8} {rest : List (Except Error Decoded)} {n : ℕ}
    (h : WellFormed (bytes ++ more)) (hmore : more ≠ [])
    (hn : n + bytes.length ≤ maxNativeResponseBytes) (hrest : Stops rest) (id : Int32) :
    ∃ e s', e ≠ .invalidData ∧
      Stream.source.readToken ⟨bytes.map audioSymbol ++ rest, id, n⟩ = .error e s' := by
  obtain ⟨r, id', -, htakes⟩ := h.takes 0 id
  have hfull := htakes [] 0 le_rfl (Nat.zero_le _)
  rw [if_pos ⟨by rw [Nat.zero_add]; exact h.length_le, rfl⟩, List.append_nil,
    List.map_append] at hfull
  have hcut : CutShort more rest ⟨bytes.map audioSymbol ++ rest, id, n⟩
      ⟨bytes.map audioSymbol ++ more.map audioSymbol, id, 0⟩ :=
    ⟨⟨bytes, rfl, rfl, hn⟩, rfl, Nat.zero_le _⟩
  have hsim := (source_cutShort more hrest).readToken _ _ hcut
  cases hrun : Stream.source.readToken ⟨bytes.map audioSymbol ++ rest, id, n⟩ with
  | ok r' s' =>
    -- The whole token has been read, but the stream stops before its end.
    rw [hrun] at hsim
    obtain ⟨s₁, hs₁, hcut'⟩ := hsim
    obtain ⟨bytes', -, hsym, -⟩ := hcut'.symbols
    rw [hfull] at hs₁
    cases hs₁
    have hnil := List.append_eq_nil_iff.mp hsym.symm
    exact absurd (List.map_eq_nil_iff.mp hnil.2) hmore
  | error e s' =>
    rw [hrun] at hsim
    rcases hsim with he | ⟨s₁, hs₁, -⟩
    · exact ⟨e, s', he, rfl⟩
    · rw [hfull] at hs₁
      cases hs₁

theorem WellFormed.length_pos {bytes : List UInt8} (h : WellFormed bytes) : 0 < bytes.length := by
  cases h <;> exact Nat.succ_pos _

/-- Draining an intact stream does not find it malformed. -/
theorem Intact.drainFrom {n : ℕ} {symbols : List (Except Error Decoded)} (h : Intact n symbols)
    {f fuel : ℕ} (hf : maxNativeResponseBytes < n + f) (id : Int32) (s' : Stream) :
    Stream.drainFrom f fuel ⟨symbols, id, n⟩ ≠ .error .invalidData s' := by
  induction h generalizing f fuel id with
  | @requestEnd n rest hn =>
    obtain ⟨f, rfl⟩ := Nat.exists_eq_succ_of_ne_zero (show f ≠ 0 by omega)
    have htoken := takes_requestEnd 0 id rest n (Nat.zero_le _) hn.le
    rw [if_pos ⟨hn, rfl⟩] at htoken
    rw [Stream.drainFrom_succ]
    simp only [bind, EStateM.bind, show audioSymbol 0xde :: rest = [0xde].map audioSymbol ++
      rest from rfl,
      htoken]
    exact nofun
  | @token n bytes rest hwell hn hrest ih =>
    have hpos := hwell.length_pos
    obtain ⟨f, rfl⟩ := Nat.exists_eq_succ_of_ne_zero (show f ≠ 0 by omega)
    obtain ⟨r, id', hr, htakes⟩ := hwell.takes 0 id
    have htoken := htakes rest n (Nat.zero_le _) (by omega)
    rw [if_pos ⟨hn, rfl⟩] at htoken
    rw [Stream.drainFrom_succ]
    simp only [bind, EStateM.bind, htoken]
    have hdrain : Stream.drain fuel ⟨rest, id', n + bytes.length⟩ ≠ .error .invalidData s' := by
      cases fuel with
      | zero => exact nofun
      | succ fuel => exact ih (by omega) id'
    rcases r with _ | _ | _ | _
    · exact ih (by omega) id'
    · exact absurd rfl hr
    · exact hdrain
    · exact hdrain
  | @stops n bytes more rest hwell hmore hn hrest =>
    obtain ⟨f, rfl⟩ := Nat.exists_eq_succ_of_ne_zero (show f ≠ 0 by omega)
    obtain ⟨e, s₁, he, htoken⟩ := readToken_stops hwell hmore hn hrest id
    rw [Stream.drainFrom_succ]
    simp only [bind, EStateM.bind, htoken]
    rintro ⟨rfl, -⟩
    exact he rfl

/-- **An intact stream is not found malformed**, however often it is read. -/
theorem Intact.drain {symbols : List (Except Error Decoded)} (h : Intact 0 symbols) (fuel : ℕ)
    (id : Int32) (s' : Stream) : Stream.drain fuel ⟨symbols, id, 0⟩ ≠ .error .invalidData s' := by
  cases fuel with
  | zero => exact nofun
  | succ fuel => exact h.drainFrom (by omega) id s'

namespace Console

variable {w : World} {c c' : Console}

/-! ### One capture -/

theorem getBinaryNode_tainted (ht : c.streamTainted = true) (id : Int32) (timeout : Time) :
    getBinaryNode w id timeout c = .error .connectionError c := by
  have hreq : requestNodeData w id c = .error .connectionError c := request_tainted ht _
  simp only [getBinaryNode, bind, EStateM.bind, hreq]

/-- A capture that runs out of time, or finds the reply malformed. -/
def Failing (e : Error) : Prop := e = .timeout ∨ e = .invalidData

/-- **A failed capture taints the stream**, if the stream was intact. -/
theorem getBinaryNode_taints (hcap : c.main.capture = none)
    (hintact : c.streamTainted = false → Intact 0 c.logical) {id : Int32} {timeout : Time}
    {e : Error} (he : Failing e) (h : outcome (getBinaryNode w id timeout) c = (.error e, c')) :
    c'.streamTainted = true := by
  by_cases ht : c.streamTainted = true
  · rw [outcome, getBinaryNode_tainted ht] at h
    cases h
    exact ht
  · have hready : Ready c := ⟨hcap, Bool.eq_false_iff.mpr ht⟩
    rcases (getBinaryNode_drain (w := w) hready id timeout).outcome rfl with
      ⟨bytes, c₁, ho, -⟩ | ⟨e₁, c₁, ho, hlost⟩
    · rw [ho] at h
      cases h
    · rw [ho] at h
      cases h
      cases hlost with
      | timeout n htaint _ _ _ => exact htaint
      | disturbed hd _ =>
        rcases he with rfl | rfl <;> cases hd
      | stream hne hs _ =>
        have hinvalid := he.resolve_left hne
        subst hinvalid
        exact absurd hs ((hintact hready.streamTainted).drain _ _ _)

/-! ### Runs -/

/-- What happens on a session, with the console before it. -/
inductive Event where
  | called (before : Console) (call : ReaderCall) (result : Except Error Reply)
  | elsewhere
  | reconnected (now : Time) (rsock : List Poll)

/-- What happens on a session, one thing after the other. -/
inductive Run : Console → List Event → Console → Prop
  | nil (c : Console) : Run c [] c
  | call {c c' : Console} {events : List Event} (w : World) (call : ReaderCall)
      (rest : Run (outcome (call.run w) c).2 events c') :
      Run c (.called c call (outcome (call.run w) c).1 :: events) c'
  /-- What clones do without the read gate. -/
  | elsewhere {c c₁ c' : Console} {events : List Event} (h : Ticked c c₁)
      (rest : Run c₁ events c') :
      Run c (.elsewhere :: events) c'
  | reconnect {c c' : Console} {events : List Event} (now : Time) (rsock : List Poll)
      (rest : Run { c.swapIn now rsock with streamTainted := false } events c') :
      Run c (.reconnected now rsock :: events) c'

/-- A capture that failed after its request was written. -/
def Event.FailedCapture (event : Event) : Prop :=
  ∃ before id timeout e, event = .called before (.getBinaryNode id timeout) (.error e) ∧ Failing e

/-- The stream is intact if a capture is to read it. -/
def Event.Sound : Event → Prop
  | .called before (.getBinaryNode _ _) _ => before.streamTainted = false → Intact 0 before.logical
  | _ => True

/-- **A failed capture is fenced off**: a capture that succeeds after it follows a reconnect, and
reads what a new session reads from the new transport. -/
def Fenced (events : List Event) : Prop :=
  ∀ before failed between c id timeout bytes after,
    events = before ++ failed ::
      (between ++ .called c (.getBinaryNode id timeout) (.ok (.captured bytes)) :: after) →
    failed.FailedCapture →
    ∃ old now rsock fresh, between = old ++ .reconnected now rsock :: fresh ∧
      Run (new now rsock) fresh c

theorem outcome_getBinaryNode (w : World) (id : Int32) (timeout : Time) (c : Console) :
    outcome ((ReaderCall.getBinaryNode id timeout).run w) c =
      ((outcome (getBinaryNode w id timeout) c).1.map .captured,
        (outcome (getBinaryNode w id timeout) c).2) := by
  unfold outcome ReaderCall.run
  simp only [bind, EStateM.bind]
  cases getBinaryNode w id timeout c <;> rfl

theorem ReaderCall.run_tainted (hcap : c.main.capture = none) (ht : c.streamTainted = true)
    (call : ReaderCall) : (outcome (call.run w) c).2.streamTainted = true := by
  rcases call.run_streamTainted hcap (w := w) rfl with hsame | ⟨⟨id, timeout, rfl⟩, htime⟩
  · exact hsame.trans ht
  · rw [outcome_getBinaryNode, outcome, getBinaryNode_tainted ht]
    exact ht

namespace Run

variable {c₁ : Console} {events after : List Event}

theorem split {before : List Event} (h : Run c (before ++ after) c') :
    ∃ c₁, Run c before c₁ ∧ Run c₁ after c' := by
  induction before generalizing c with
  | nil => exact ⟨c, .nil c, h⟩
  | cons event before ih =>
    cases h with
    | call w call rest =>
      obtain ⟨c₁, hbefore, hafter⟩ := ih rest
      exact ⟨c₁, .call w call hbefore, hafter⟩
    | elsewhere ht rest =>
      obtain ⟨c₁, hbefore, hafter⟩ := ih rest
      exact ⟨c₁, .elsewhere ht hbefore, hafter⟩
    | reconnect now rsock rest =>
      obtain ⟨c₁, hbefore, hafter⟩ := ih rest
      exact ⟨c₁, .reconnect now rsock hbefore, hafter⟩

/-- The run up to a call reaches the console the call is made on. -/
theorem before {before : List Event} {call : ReaderCall} {r : Except Error Reply}
    (h : Run c (before ++ .called c₁ call r :: after) c') : Run c before c₁ := by
  obtain ⟨c₂, hbefore, hafter⟩ := h.split
  cases hafter
  exact hbefore

/-- The states of a run are reachable. -/
theorem reachable (h : Run c events c') (hc : Reachable c) : Reachable c' := by
  induction h with
  | nil => exact hc
  | call w call _ ih => exact ih (.call w call hc)
  | elsewhere ht _ ih => exact ih (.elsewhere ht hc)
  | reconnect now rsock _ ih => exact ih (.reconnect now rsock hc)

/-- **A tainted stream stays tainted**: a capture succeeds only after a reconnect, and then reads
what a new session reads. -/
theorem tainted {between : List Event} {id : Int32} {timeout : Time} {bytes : List UInt8}
    (h : Run c (between ++ .called c₁ (.getBinaryNode id timeout) (.ok (.captured bytes)) ::
      after) c')
    (hc : Reachable c) (ht : c.streamTainted = true) :
    ∃ old now rsock fresh, between = old ++ .reconnected now rsock :: fresh ∧
      Run (new now rsock) fresh c₁ := by
  induction between generalizing c with
  | nil =>
    generalize hresult : (Except.ok (Reply.captured bytes) : Except Error Reply) = result at h
    rw [List.nil_append] at h
    cases h with
    | call w call rest =>
      rw [outcome_getBinaryNode, outcome, getBinaryNode_tainted ht] at hresult
      cases hresult
  | cons event between ih =>
    cases h with
    | call w call rest =>
      obtain ⟨old, now, rsock, fresh, rfl, hrun⟩ :=
        ih rest (.call w call hc) (call.run_tainted hc.capture ht)
      exact ⟨_ :: old, now, rsock, fresh, rfl, hrun⟩
    | elsewhere htick rest =>
      obtain ⟨old, now, rsock, fresh, rfl, hrun⟩ :=
        ih rest (.elsewhere htick hc) (htick.streamTainted.trans ht)
      exact ⟨_ :: old, now, rsock, fresh, rfl, hrun⟩
    | reconnect now rsock rest =>
      rw [swapIn_eq_new] at rest
      exact ⟨[], now, rsock, between, rfl, rest.before⟩

end Run

/-- **Failed captures do not contaminate later ones** in a run, from any reachable state, of calls
by any clones in any worlds in which the stream is intact whenever a capture begins to read it. -/
theorem events_fenced {events : List Event} (h : Run c events c') (hc : Reachable c)
    (hsound : ∀ event ∈ events, event.Sound) : Fenced events := by
  rintro before failed between c₂ id' timeout' bytes after rfl ⟨c₁, id, timeout, e, rfl, he⟩
  obtain ⟨c₁', hbefore, hafter⟩ := h.split
  have hc₁ : Reachable c₁ := h.before.reachable hc
  have hintact : c₁.streamTainted = false → Intact 0 c₁.logical :=
    hsound _ (List.mem_append_right before List.mem_cons_self)
  generalize hresult : (Except.error e : Except Error Reply) = result at hafter
  cases hafter with
  | call w call rest =>
    refine rest.tainted (.call w _ hc₁) ?_
    rw [outcome_getBinaryNode] at hresult ⊢
    rcases ho : outcome (getBinaryNode w id timeout) c₁ with ⟨e' | bytes', c₃⟩
    · rw [ho] at hresult
      cases hresult
      exact getBinaryNode_taints hc₁.capture hintact he ho
    · rw [ho] at hresult
      cases hresult

/-- A reply of which the end comes late. -/
def lateConsole : Console :=
  .new 0 [.read (.ok [0xd7, 0, 0, 0, 7, 9]), .read (.error .wouldBlock), .read (.error .wouldBlock),
    .read (.ok [0xde])]

theorem lateConsole_intact : Intact 0 lateConsole.logical := by
  have hlogical : lateConsole.logical =
      [0xd7, 0, 0, 0, 7].map audioSymbol ++ ([9].map audioSymbol ++ audioSymbol 0xde :: []) := by
    decide +kernel
  rw [hlogical]
  exact .token (.token ⟨0xd7, [0, 0, 0, 7], by decide⟩ (by decide)) (by decide)
    (.token (.token ⟨9, [], by decide⟩ (by decide)) (by decide) (.requestEnd [] (by decide)))

/-- A capture that runs out of time, one on the tainted stream, a reconnect and a third one. -/
theorem lateConsole_fenced :
    let rsock : List Poll := [.read (.ok [5, 0xde])]
    ∃ c₁ c', Run lateConsole
        [.called lateConsole (.getBinaryNode 7 12) (.error .timeout),
          .called c₁ (.getBinaryNode 7 99) (.error .connectionError), .reconnected 0 rsock,
          .called (new 0 rsock) (.getBinaryNode 7 99) (.ok (.captured [5, 0xde]))] c' ∧
      Fenced
        [.called lateConsole (.getBinaryNode 7 12) (.error .timeout),
          .called c₁ (.getBinaryNode 7 99) (.error .connectionError), .reconnected 0 rsock,
          .called (new 0 rsock) (.getBinaryNode 7 99) (.ok (.captured [5, 0xde]))] := by
  intro rsock
  let call : ReaderCall := .getBinaryNode 7 99
  let c₁ := (outcome ((ReaderCall.getBinaryNode 7 12).run .steady) lateConsole).2
  let c₂ := (outcome (call.run .steady) c₁).2
  have hlate : (outcome ((ReaderCall.getBinaryNode 7 12).run .steady) lateConsole).1 =
      .error .timeout := by decide +kernel
  have htaint : c₁.streamTainted = true := by decide +kernel
  have hfail : (outcome (call.run .steady) c₁).1 = .error .connectionError := by decide +kernel
  have hok : (outcome (call.run .steady) (new 0 rsock)).1 = .ok (.captured [5, 0xde]) := by
    decide +kernel
  have hlast := Run.call .steady call (Run.nil (outcome (call.run .steady) (new 0 rsock)).2)
  rw [hok, ← swapIn_eq_new c₂] at hlast
  have hrun := Run.call .steady (.getBinaryNode 7 12)
    (Run.call (c := c₁) .steady call (.reconnect (c := c₂) 0 rsock hlast))
  rw [hlate, hfail] at hrun
  refine ⟨c₁, _, hrun, events_fenced hrun (.new 0 _) fun event hevent => ?_⟩
  simp only [List.mem_cons, List.not_mem_nil, or_false] at hevent
  rcases hevent with rfl | rfl | rfl | rfl
  · exact fun _ => lateConsole_intact
  · exact fun hclean => absurd htaint (by rw [hclean]; exact Bool.false_ne_true)
  · trivial
  · intro _
    have hlogical : (new 0 rsock).logical = [5].map audioSymbol ++ audioSymbol 0xde :: [] := by
      decide +kernel
    rw [hlogical]
    exact .token (.token ⟨5, [], by decide⟩ (by decide)) (by decide) (.requestEnd [] (by decide))

/-- A reply with a string that is not UTF-8. -/
def spoiledConsole : Console := .new 0 [.read (.ok [0x80, 0xff, 0xd7, 0, 0, 0, 5, 9, 0xde])]

/-- A capture fails because the reply is malformed, and the next one returns the rest of it. -/
theorem spoiledConsole_not_fenced :
    spoiledConsole.logical =
        [0x80, 0xff].map audioSymbol ++ [0xd7, 0, 0, 0, 5, 9, 0xde].map audioSymbol ∧
      ∃ c₁ c', Run spoiledConsole
          [.called spoiledConsole (.getBinaryNode 3 99) (.error .invalidData),
            .called c₁ (.getBinaryNode 4 99) (.ok (.captured [0xd7, 0, 0, 0, 5, 9, 0xde]))] c' ∧
        ¬ Fenced
          [.called spoiledConsole (.getBinaryNode 3 99) (.error .invalidData),
            .called c₁ (.getBinaryNode 4 99) (.ok (.captured [0xd7, 0, 0, 0, 5, 9, 0xde]))] := by
  let c₁ := (outcome ((ReaderCall.getBinaryNode 3 99).run .steady) spoiledConsole).2
  have hfail : (outcome ((ReaderCall.getBinaryNode 3 99).run .steady) spoiledConsole).1 =
      .error .invalidData := by decide +kernel
  have hok : (outcome ((ReaderCall.getBinaryNode 4 99).run .steady) c₁).1 =
      .ok (.captured [0xd7, 0, 0, 0, 5, 9, 0xde]) := by decide +kernel
  have hrun := Run.call .steady (.getBinaryNode 3 99)
    (Run.call (c := c₁) .steady (.getBinaryNode 4 99) (.nil _))
  rw [hfail, hok] at hrun
  refine ⟨by decide +kernel, c₁, _, hrun, fun hfenced => ?_⟩
  obtain ⟨old, now, rsock, fresh, hbetween, -⟩ := hfenced [] _ [] c₁ 4 99 _ [] rfl
    ⟨spoiledConsole, 3, 99, .invalidData, rfl, Or.inr rfl⟩
  cases old <;> cases hbetween

end Console

end LibWing
