import LibWing.Console.Reachable
import Mathlib.Data.List.TakeWhile

/-!
# Getting several nodes

`get_nodes` gets one node after the other.  Values of other nodes that a get has buffered are
stashed, and answer for these nodes without a request.  Of several values of one node the stash
keeps the first.

* `getNodes`, `getNodes_returns` : the call, and that it has a result for each id;
* `valuesOf`, `firstValue`, `lastValue` : the values of a node among some responses;
* `stash_of_mem` : the stash as the first values of what was buffered;
* `getNodeData_taken` : what a get takes, whether it succeeds or fails;
* `InReach`, `getNodeData_isOk_iff` : when a get comes to a value that is queued.
-/

namespace LibWing

open Stateful

/-! ### Values of a node -/

/-- The values of a node among some responses, in order. -/
def valuesOf (id : Int32) (rs : List WingResponse) : List WingNodeData :=
  rs.filterMap fun r => match r with
    | .nodeData rid data => if rid = id then some data else none
    | _ => none

/-- The first value of a node. -/
def firstValue (id : Int32) (rs : List WingResponse) : Option WingNodeData := (valuesOf id rs).head?

/-- The last value of a node. -/
def lastValue (id : Int32) (rs : List WingResponse) : Option WingNodeData :=
  (valuesOf id rs).getLast?

variable {id : Int32} {rs rs' : List WingResponse} {data : WingNodeData}

theorem valuesOf_append (id : Int32) (rs rs' : List WingResponse) :
    valuesOf id (rs ++ rs') = valuesOf id rs ++ valuesOf id rs' := List.filterMap_append

theorem firstValue_append (id : Int32) (rs rs' : List WingResponse) :
    firstValue id (rs ++ rs') = (firstValue id rs).or (firstValue id rs') := by
  rw [firstValue, valuesOf_append, List.head?_append, firstValue, firstValue]

theorem firstValue_append_none (h : firstValue id rs = none) (rs' : List WingResponse) :
    firstValue id (rs ++ rs') = firstValue id rs' := by
  rw [firstValue_append, h, Option.none_or]

theorem firstValue_eq_none_iff : firstValue id rs = none ↔ valuesOf id rs = [] :=
  List.head?_eq_none_iff

/-- What comes before some values is not the last one. -/
theorem lastValue_append (rs : List WingResponse) (h : valuesOf id rs' ≠ []) :
    lastValue id (rs ++ rs') = lastValue id rs' := by
  rw [lastValue, valuesOf_append, List.getLast?_append_of_ne_nil _ h, lastValue]

namespace Console

variable (w : World)

/-! ### The call -/

/-- One buffered response; of several values of a node the first stays. -/
def stashValue (ids : List Int32) (id : Int32) (pending : Int32 → Option WingNodeData) :
    WingResponse → Int32 → Option WingNodeData
  | .nodeData bid bdata =>
    if bid ≠ id ∧ bid ∈ ids then
      match pending bid with
      | some _ => pending
      | none => Function.update pending bid (some bdata)
    else pending
  | _ => pending

/-- The stash after a get of `id` that has buffered some responses. -/
def stash (ids : List Int32) (id : Int32) (pending : Int32 → Option WingNodeData)
    (buffered : List WingResponse) : Int32 → Option WingNodeData :=
  buffered.foldl (stashValue ids id) pending

/-- The result for one id, with the consoles before and after it. -/
structure Decision where
  /-- The node. -/
  id : Int32
  /-- What is returned for it. -/
  result : Except Error WingNodeData
  /-- The console before. -/
  before : Console
  /-- The console afterwards. -/
  after : Console

/-- The loop of `get_nodes`. -/
def getNodesLoop (ids : List Int32) (timeout : Time) :
    List Int32 → (Int32 → Option WingNodeData) → ConsoleM (List Decision)
  | [], _ => return []
  | id :: rest, pending => do
    let before ← get
    match pending id with
    | some data => do
      let later ← getNodesLoop ids timeout rest (Function.update pending id none)
      return ⟨id, .ok data, before, before⟩ :: later
    | none => do
      match ← attempt (getNodeData w id timeout) with
      | .ok (data, buffered) => do
        let after ← get
        let later ← getNodesLoop ids timeout rest (stash ids id pending buffered)
        return ⟨id, .ok data, before, after⟩ :: later
      | .error err => do
        let after ← get
        let later ← getNodesLoop ids timeout rest pending
        return ⟨id, .error err, before, after⟩ :: later

/-- The decisions of `get_nodes`. -/
def decideNodes (ids : List Int32) (timeout : Time) : ConsoleM (List Decision) :=
  getNodesLoop w ids timeout ids fun _ => none

/-- `get_nodes`. -/
def getNodes (ids : List Int32) (timeout : Time) :
    ConsoleM (List (Int32 × Except Error WingNodeData)) := do
  let decisions ← decideNodes w ids timeout
  return decisions.map fun d => (d.id, d.result)

variable {w : World} {c c' start : Console}

/-- A decision, and the loop behind it. -/
theorem cons_returns {P : Console → Prop} {later : ConsoleM (List Decision)} {rest : List Int32}
    (h : Triple (fun _ => True) later (fun ds _ => ds.map Decision.id = rest) fun _ _ => False)
    (d : Decision) :
    Triple P (do let ds ← later; return d :: ds) (fun ds _ => ds.map Decision.id = d.id :: rest)
      fun _ _ => False := by
  have hlater : Triple P later (fun ds _ => ds.map Decision.id = rest) fun _ _ => False :=
    h.conseq (fun _ _ => trivial) (fun _ _ h => h) fun _ _ h => h
  exact hlater.bind fun ds => Triple.pure fun _ hds => by rw [List.map_cons, hds]

/-- The loop decides every node, whatever fails. -/
theorem getNodesLoop_returns (ids : List Int32) (timeout : Time) (todo : List Int32)
    (pending : Int32 → Option WingNodeData) :
    Triple (fun _ => True) (getNodesLoop w ids timeout todo pending)
      (fun ds _ => ds.map Decision.id = todo) fun _ _ => False := by
  induction todo generalizing pending with
  | nil => exact Triple.pure fun _ _ => rfl
  | cons id rest ih =>
    rw [getNodesLoop]
    refine Triple.bind_get fun before _ => ?_
    cases pending id with
    | some data => exact cons_returns (ih _) ⟨id, .ok data, before, before⟩
    | none =>
      refine Triple.bind_attempt Triple.trivial (fun r => ?_) fun e => ?_
      · refine Triple.bind_get fun after _ => ?_
        exact cons_returns (ih _) ⟨id, .ok r.1, before, after⟩
      · refine Triple.bind_get fun after _ => ?_
        exact cons_returns (ih _) ⟨id, .error e, before, after⟩

/-- The call returns a result for each id, in order. -/
theorem getNodes_returns (w : World) (ids : List Int32) (timeout : Time) (c : Console) :
    ∃ ds c', outcome (decideNodes w ids timeout) c = (.ok ds, c') ∧ ds.map Decision.id = ids ∧
      outcome (getNodes w ids timeout) c = (.ok (ds.map fun d => (d.id, d.result)), c') := by
  rcases (getNodesLoop_returns ids timeout ids fun _ => none).outcome (s := c) trivial with
    ⟨ds, c', hrun, hids⟩ | ⟨e, c', -, hnever⟩
  · exact ⟨ds, c', hrun, hids, outcome_bind_ok hrun⟩
  · exact hnever.elim

/-! ### The stash -/

theorem stash_of_mem {ids : List Int32} {bid : Int32} (hne : bid ≠ id) (hmem : bid ∈ ids)
    (pending : Int32 → Option WingNodeData) (rs : List WingResponse) :
    stash ids id pending rs bid = (pending bid).or (firstValue bid rs) := by
  induction rs generalizing pending with
  | nil => simp [stash, firstValue, valuesOf]
  | cons r rs ih =>
    refine (ih (stashValue ids id pending r)).trans ?_
    rw [show r :: rs = [r] ++ rs from rfl, firstValue_append, ← Option.or_assoc]
    congr 1
    cases r with
    | requestEnd => simp [stashValue, firstValue, valuesOf]
    | nodeDef d => simp [stashValue, firstValue, valuesOf]
    | nodeData rid d =>
      by_cases hrid : rid = bid
      · subst hrid
        cases hp : pending rid with
        | none => simp [stashValue, hne, hmem, hp, firstValue, valuesOf]
        | some old => simp [stashValue, hne, hmem, hp]
      · -- A value of another node leaves the entry alone.
        have hother : firstValue bid [.nodeData rid d] = none := by
          simp [firstValue, valuesOf, hrid]
        rw [hother, Option.or_none, stashValue]
        split_ifs
        · cases pending rid with
          | none => exact Function.update_of_ne (Ne.symm hrid) _ _
          | some old => rfl
        · rfl

theorem stash_self (ids : List Int32) (id : Int32) (pending : Int32 → Option WingNodeData)
    (rs : List WingResponse) : stash ids id pending rs id = pending id := by
  induction rs generalizing pending with
  | nil => rfl
  | cons r rs ih =>
    refine (ih (stashValue ids id pending r)).trans ?_
    cases r with
    | requestEnd => rfl
    | nodeDef d => rfl
    | nodeData rid d =>
      rw [stashValue]
      split_ifs with h
      · cases pending rid with
        | none => exact Function.update_of_ne (Ne.symm h.1) _ _
        | some old => rfl
      · rfl

/-! ### One get -/

theorem responses_of_read_error {s s' : Stream} {e : Error} (h : s.read = .error e s') :
    s.responses = s'.responses := by
  have ho : outcome Stream.read s = (.error e, s') := Stream.outcome_error h
  by_cases hend : s.symbols = []
  · obtain ⟨s'', hread, hend'⟩ := Stream.read_ended hend
    cases ho.symm.trans hread
    rw [Stream.responses, Stream.responses, Stream.responsesOf_ended _ hend,
      Stream.responsesOf_ended _ hend']
  · have hlt := Stream.read_shrinks ho hend
    obtain ⟨n, hn⟩ := Nat.exists_eq_succ_of_ne_zero (Nat.ne_of_gt (Nat.zero_lt_of_lt hlt))
    rw [Stream.responses, hn, Stream.responsesOf, ho]
    exact Stream.responsesOf_eq (by rw [hn] at hlt; exact Nat.le_of_lt_succ hlt) le_rfl

theorem valuesOf_cons (id : Int32) (r : WingResponse) (rs : List WingResponse) :
    valuesOf id (r :: rs) = valuesOf id [r] ++ valuesOf id rs := valuesOf_append id [r] rs

theorem valuesOf_eq_nil_iff_dataMatcher {r : WingResponse} :
    valuesOf id [r] = [] ↔ dataMatcher id r = .error r := by
  cases r with
  | requestEnd => simp [valuesOf, dataMatcher]
  | nodeDef d => simp [valuesOf, dataMatcher]
  | nodeData rid d => by_cases h : rid = id <;> simp [valuesOf, dataMatcher, h]

theorem valuesOf_eq_nil_of_forall (h : ∀ r ∈ rs, valuesOf id [r] = []) : valuesOf id rs = [] := by
  induction rs with
  | nil => rfl
  | cons r rs ih =>
    obtain ⟨hr, hrs⟩ := List.forall_mem_cons.mp h
    rw [valuesOf_cons, hr, ih hrs]
    rfl

/-- Some responses were taken since `c`, the oldest first, and no value of the node is among
them. -/
def Passed (id : Int32) (c c' : Console) : Prop :=
  c'.main.capture = none ∧ ∃ taken, valuesOf id taken = [] ∧ c.remaining = taken ++ c'.remaining

theorem Passed.refl (hcap : c.main.capture = none) : Passed id c c := ⟨hcap, [], rfl, rfl⟩

theorem Passed.ticked {c₁ : Console} (h : Passed id c c₁) (ht : Ticked c₁ c') : Passed id c c' := by
  obtain ⟨hcap, taken, hnone, hrem⟩ := h
  refine ⟨ht.capture.trans hcap, taken, hnone, ?_⟩
  rw [hrem, remaining, remaining, ht.pending, ht.stream]

theorem readLocked_passes (hw : w.Calm) : Triple (Passed id c) (readLocked w)
    (fun r c' => valuesOf id [r] = [] → Passed id c c') (fun _ => Passed id c) := by
  intro c₁ h
  by_cases htaint : c₁.streamTainted = true
  · have hrun := readLocked_tainted (w := w) htaint
    exact hrun.conseq (fun _ h => h) (fun _ _ h => h.elim) (fun _ _ hc' => hc' ▸ h) c₁ rfl
  · obtain ⟨hcap, taken, hnone, hrem⟩ := h
    refine (readLocked_spec (w := w) hcap (Bool.eq_false_iff.mpr htaint)).conseq (fun _ h => h)
      (fun r c' hd hr => ?_) (fun e c' hf => ?_) c₁ rfl
    · refine ⟨hd.session.capture.trans hcap, taken ++ [r],
        by rw [valuesOf_append, hnone, hr]; rfl, ?_⟩
      rw [hrem, ((Consumed.refl c₁).deliver hd).remaining, List.nil_append, List.append_assoc]
    · have hsame : c₁.remaining = c'.remaining := by
        rw [remaining, remaining, hf.1.call.pending]
        rcases hf.1.cause with ⟨-, -, hstream⟩ | ⟨-, hdist | hread⟩
        · rw [hstream]
        · exact absurd hw hdist
        · rw [responses_of_read_error hread]
      exact ⟨hf.1.call.capture.trans hcap, taken, hnone, hrem.trans (by rw [hsame])⟩

theorem instantNow_passes : Keeps (Passed id c) (instantNow w) := by
  intro c₁ h
  exact h.ticked (instantNow_spec (w := w) c₁ (Ticked.refl c₁))

theorem attendedLoop_passes (hw : w.Calm) (deadline : Time) (fuel : ℕ)
    (buffered : List WingResponse) :
    Triple (Passed id c) (attendedLoop w deadline (dataMatcher id) fuel buffered)
      (fun result c' => result.1.isOk = false → Passed id c c') (fun _ => Passed id c) := by
  induction fuel generalizing buffered with
  | zero => exact Triple.pure fun _ h _ => h
  | succ fuel ih =>
    refine Triple.bind_attempt (readLocked_passes hw) (fun r => ?_) fun e =>
      Triple.pure fun _ h _ => h
    cases hr : dataMatcher id r with
    | ok matched =>
      simp only [hr]
      exact Triple.pure fun _ _ hfail => absurd hfail (by simp [Except.isOk, Except.toBool])
    | error unrelated =>
      -- What the matcher refuses is no value of the node.
      have hself := returns_dataMatcher id r unrelated hr
      subst hself
      have hpassed : ∀ c', (valuesOf id [unrelated] = [] → Passed id c c') → Passed id c c' :=
        fun _ h => h (valuesOf_eq_nil_iff_dataMatcher.mpr hr)
      simp only [hr]
      split_ifs
      · exact Triple.pure fun c' h _ => hpassed c' h
      · refine Triple.bind (instantNow_passes.conseq hpassed (fun _ _ h => h) fun _ _ h => h)
          fun now => ?_
        split_ifs
        · exact Triple.pure fun _ h _ => h
        · exact ih _

theorem attendedReadUntil_passes (hw : w.Calm) (deadline : Time) :
    Triple (Passed id c) (attendedReadUntil w deadline (dataMatcher id)) (fun _ _ => True)
      (fun e c' => e ≠ .timeout → Passed id c c') := by
  refine Triple.bind ((attendedLoop_passes hw deadline _ []).conseq (fun _ h => h)
    (fun _ _ h => h) fun _ _ h _ => h) fun result => ?_
  obtain ⟨result, buffered⟩ := result
  cases result with
  | ok matched => exact Triple.pure fun _ _ => True.intro
  | error e =>
    by_cases he : e = .timeout
    · subst he
      exact fun c₁ _ hne => absurd rfl hne
    · cases e
      case timeout => exact absurd rfl he
      all_goals exact Triple.throw fun _ h _ => h rfl

theorem getNodeData_passes (hw : w.Calm) (id : Int32) (timeout : Time) :
    Triple (Passed id c) (getNodeData w id timeout) (fun _ _ => True)
      (fun e c' => e ≠ .timeout → Passed id c c') := by
  have hrequest : Keeps (Passed id c) (requestNodeData w id) := by
    refine Keeps.bind (Keeps.bind_get fun s => ?_) fun _ => ?_
    · split_ifs
      · exact Keeps.throw _
      · exact Keeps.pure _
    · intro c₁ h
      exact (writeAll_spec (w := w) (c := c₁) _).conseq (fun _ h => h)
        (fun _ _ ht => h.ticked ht) (fun _ _ ht => h.ticked ht.1) c₁ (Ticked.refl c₁)
  refine Triple.bind (hrequest.conseq (fun _ h => h) (fun _ _ h => h) fun _ _ h _ => h) fun _ => ?_
  refine Triple.bind (instantNow_passes.conseq (fun _ h => h) (fun _ _ h => h)
    fun _ _ h _ => h) fun now => ?_
  refine Triple.bind (Q := fun _ => Passed id c) (fun _ h => h) fun _ => ?_
  exact Triple.attempt_finally (attendedReadUntil_passes hw _) (fun _ _ h => h) fun _ _ h => h

/-- One get: it takes what it buffers, no value of its node, and then its answer; or it fails, and
what it has taken has no value of its node. -/
theorem getNodeData_taken (hw : w.Calm) (hcap : c.main.capture = none) (id : Int32)
    (timeout : Time) :
    (∃ data buffered c', outcome (getNodeData w id timeout) c = (.ok (data, buffered), c') ∧
      c'.main.capture = none ∧ valuesOf id buffered = [] ∧
        Consumed c (buffered ++ [.nodeData id data]) c') ∨
    ∃ e c', outcome (getNodeData w id timeout) c = (.error e, c') ∧ Passed id c c' := by
  have hstart : Passed id c c := Passed.refl hcap
  have hpasses := (getNodeData_passes (w := w) hw id timeout).outcome hstart
  by_cases htaint : c.streamTainted = true
  · -- Nothing is asked on a stream that is tainted.
    have hrequest : outcome (requestNodeData w id) c = (.error .connectionError, c) := by
      rw [outcome, requestNodeData, request_tainted htaint]
    exact Or.inr ⟨_, _, outcome_bind_error hrequest, hstart⟩
  · have hspec := getNodeData_spec (w := w) ⟨hcap, Bool.eq_false_iff.mpr htaint⟩ id timeout
    rcases hspec.outcome rfl with ⟨⟨data, buffered⟩, c', ho, hready, hans⟩ | ⟨e, c', ho,
      hready, htime⟩
    · obtain ⟨r, hr, hcons⟩ := hans.answer
      refine Or.inl ⟨data, buffered, c', ho, hready.capture, ?_, dataMatcher_ok hr ▸ hcons⟩
      have hnone : ∀ r ∈ buffered, valuesOf id [r] = [] := fun r hmem =>
        valuesOf_eq_nil_iff_dataMatcher.mpr (hans.unrelated r hmem)
      exact valuesOf_eq_nil_of_forall hnone
    · refine Or.inr ⟨e, c', ho, ?_⟩
      by_cases he : e = .timeout
      · exact ⟨hready.capture, [], rfl, (htime he).symm⟩
      · rcases hpasses with ⟨_, _, ho', _⟩ | ⟨e', c'', ho', h⟩
        · cases ho.symm.trans ho'
        · cases ho.symm.trans ho'
          exact h he

/-! ### A value in the queue -/

/-- The responses before the first value of a node. -/
def ahead (id : Int32) (rs : List WingResponse) : List WingResponse :=
  rs.takeWhile fun r => (valuesOf id [r]).isEmpty

/-- A get of `id` that is made in `c` gets to a value in the queue: not too many responses are
before it, and the deadline has not passed when any of these has been taken. -/
structure InReach (w : World) (timeout : Time) (c : Console) (id : Int32) : Prop where
  /-- A value is queued. -/
  queued : valuesOf id c.main.pending ≠ []
  /-- The stream is not tainted. -/
  streamTainted : c.streamTainted = false
  /-- Not too many responses are before it. -/
  bounded : (ahead id c.main.pending).length ≤ maxAttendedBuffered
  /-- The clock is read when the get begins and behind each response. -/
  early : ∀ i < (ahead id c.main.pending).length,
    w.now (c.tick + 3 + 2 * i) < w.now (c.tick + 1) + timeout

theorem ahead_cons (id : Int32) (r : WingResponse) (rs : List WingResponse) :
    ahead id (r :: rs) = if valuesOf id [r] = [] then r :: ahead id rs else [] := by
  simp only [ahead, List.takeWhile_cons, List.isEmpty_iff]

theorem exists_ahead (h : valuesOf id rs ≠ []) :
    ∃ data rest, rs = ahead id rs ++ .nodeData id data :: rest := by
  induction rs with
  | nil => exact absurd rfl h
  | cons r rs ih =>
    by_cases hr : valuesOf id [r] = []
    · rw [valuesOf_cons, hr, List.nil_append] at h
      obtain ⟨data, rest, hrs⟩ := ih h
      exact ⟨data, rest, by rw [ahead_cons, if_pos hr, List.cons_append, ← hrs]⟩
    · rw [ahead_cons, if_neg hr]
      cases r with
      | requestEnd => exact absurd rfl hr
      | nodeDef d => exact absurd rfl hr
      | nodeData rid d =>
        by_cases hid : rid = id
        · exact ⟨d, rs, by rw [hid]; rfl⟩
        · exact absurd (by simp [valuesOf, hid]) hr

theorem valuesOf_of_mem_ahead {r : WingResponse} (h : r ∈ ahead id rs) : valuesOf id [r] = [] :=
  List.isEmpty_iff.mp (List.mem_takeWhile_imp (p := fun r => (valuesOf id [r]).isEmpty) h)

theorem readLocked_pop (hw : w.Calm) (hc : Ready c) {r : WingResponse} {rest : List WingResponse}
    (hp : c.main.pending = r :: rest) : readLocked w c =
      .ok r { c with main := { c.main with pending := rest }, tick := c.tick + 1 } := by
  simp only [readLocked, loadReconnecting, bind, EStateM.bind, run_get, run_modifyGet,
    hc.streamTainted,
    hw.reconnecting, Bool.false_eq_true, ↓reduceIte, hp]
  rfl

theorem attendedLoop_queue (hw : w.Calm) {rest : List WingResponse} (hc : Ready c) (deadline : Time)
    (hp : c.main.pending = rs ++ .nodeData id data :: rest) (hrs : ∀ r ∈ rs, valuesOf id [r] = [])
    (fuel : ℕ) (buffered : List WingResponse)
    (hfuel : buffered.length + fuel = maxAttendedBuffered + 1)
    (hlen : buffered.length ≤ maxAttendedBuffered) :
    Triple (· = c) (attendedLoop w deadline (dataMatcher id) fuel buffered)
      (fun result _ => result.1.isOk = true ↔ buffered.length + rs.length ≤ maxAttendedBuffered ∧
        ∀ i < rs.length, w.now (c.tick + 1 + 2 * i) < deadline) (fun _ _ => False) := by
  -- Where there is room for one more response there is fuel for it.
  obtain ⟨fuel, rfl⟩ : ∃ n, fuel = n + 1 := Nat.exists_eq_succ_of_ne_zero (by omega)
  induction rs generalizing c fuel buffered with
  | nil =>
    have hread : Triple (· = c) (readLocked w) (fun r _ => r = .nodeData id data)
        (fun _ _ => False) := by
      rintro c rfl
      rw [readLocked_pop hw hc hp]
    refine Triple.bind_attempt hread
      (fun r => Triple.assume (P := fun _ => True) (fun hr => ?_) |>.conseq
      (fun _ h => ⟨h, True.intro⟩) (fun _ _ h => h) fun _ _ h => h) fun e c' h => h.elim
    subst hr
    simp only [dataMatcher, ↓reduceIte]
    refine Triple.pure fun _ _ => ?_
    simp [Except.isOk, Except.toBool, hlen]
  | cons r rs ih =>
    obtain ⟨hr, hothers⟩ := List.forall_mem_cons.mp hrs
    let popped : Console :=
      { c with
        main := { c.main with pending := rs ++ .nodeData id data :: rest }
        tick := c.tick + 1 }
    have hread : Triple (· = c) (readLocked w) (fun r' c' => r' = r ∧ c' = popped)
        (fun _ _ => False) := by
      rintro c rfl
      rw [readLocked_pop hw hc hp]
      exact ⟨rfl, rfl⟩
    refine Triple.bind_attempt hread (fun r' => Triple.assume fun hr' => ?_) fun e c' h => h.elim
    subst hr'
    simp only [valuesOf_eq_nil_iff_dataMatcher.mp hr]
    rw [List.length_cons]
    split_ifs with hfull
    · refine Triple.pure fun _ _ => ?_
      simp only [Except.isOk, Except.toBool, Bool.false_eq_true, false_iff, not_and]
      omega
    · -- The clock is read behind the response.
      let ticked : Console := { popped with tick := c.tick + 2 }
      have hnow : Triple (· = popped) (instantNow w)
          (fun now c' => now = w.now (c.tick + 1) ∧ c' = ticked) (fun _ _ => False) := by
        rintro c' rfl
        exact ⟨rfl, rfl⟩
      refine Triple.bind hnow fun now => Triple.assume fun hnow => ?_
      subst hnow
      rw [Nat.forall_lt_succ_left]
      split_ifs with hlate
      · refine Triple.pure fun _ _ => ?_
        simp only [Except.isOk, Except.toBool, Bool.false_eq_true, false_iff, not_and]
        exact fun _ h => absurd hlate (Nat.not_le_of_lt h)
      · obtain ⟨fuel, rfl⟩ : ∃ n, fuel = n + 1 := Nat.exists_eq_succ_of_ne_zero (by omega)
        have hlater := @ih ticked ⟨hc.capture, hc.streamTainted⟩ rfl hothers (buffered ++ [r'])
          (by rw [List.length_append, List.length_singleton]; omega) fuel
          (by rw [List.length_append, List.length_singleton]; omega)
        refine hlater.conseq (fun _ h => h) (fun result _ h => h.trans ?_) fun _ _ h => h
        have htick : ∀ i, c.tick + 1 + 2 * (i + 1) = ticked.tick + 1 + 2 * i := fun i => by
          change _ = c.tick + 2 + 1 + 2 * i
          omega
        simp only [htick, List.length_append, List.length_singleton]
        refine and_congr (by omega) ⟨fun h => ⟨Nat.lt_of_not_le hlate, h⟩, fun h => h.2⟩

/-- A get over a queue that has a value of its node succeeds exactly if it gets there. -/
theorem getNodeData_isOk_iff (hw : w.Calm) (hcap : c.main.capture = none)
    (hqueued : valuesOf id c.main.pending ≠ []) (timeout : Time) :
    (outcome (getNodeData w id timeout) c).1.isOk = true ↔ InReach w timeout c id := by
  by_cases htaint : c.streamTainted = true
  · have hrequest : outcome (requestNodeData w id) c = (.error .connectionError, c) := by
      rw [outcome, requestNodeData, request_tainted htaint]
    rw [getNodeData, attendedGet, outcome_bind_error hrequest]
    refine ⟨fun h => absurd h (by simp [Except.isOk, Except.toBool]), fun h => ?_⟩
    rw [h.streamTainted] at htaint
    cases htaint
  · have htaint := Bool.eq_false_iff.mpr htaint
    obtain ⟨data, rest, hp⟩ := exists_ahead hqueued
    -- The request and the clock take one look at the world each.
    let begun : Console :=
      { c with wsock := c.wsock ++ [requestNodeDataMessage id], tick := c.tick + 1 }
    let deadline := w.now (c.tick + 1) + timeout
    let timed : Console :=
      { begun with main := { c.main with opDeadline := some deadline }, tick := c.tick + 2 }
    have hready : Ready timed := ⟨hcap, htaint⟩
    have hloop := attendedLoop_queue hw hready deadline hp (fun r => valuesOf_of_mem_ahead)
      (maxAttendedBuffered + 1) [] (Nat.zero_add _) (Nat.zero_le _)
    have hiff : InReach w timeout c id ↔
        ([] : List WingResponse).length + (ahead id c.main.pending).length ≤ maxAttendedBuffered ∧
          ∀ i < (ahead id c.main.pending).length, w.now (c.tick + 2 + 1 + 2 * i) < deadline := by
      rw [List.length_nil, Nat.zero_add]
      exact ⟨fun h => ⟨h.bounded, h.early⟩, fun h => ⟨hqueued, htaint, h.1, h.2⟩⟩
    have huntil : Triple (· = timed) (attendedReadUntil w deadline (dataMatcher id))
        (fun _ _ => InReach w timeout c id) (fun _ _ => ¬ InReach w timeout c id) := by
      refine Triple.bind hloop.of_never ?_
      rintro ⟨result, buffered⟩
      cases result with
      | ok matched => exact Triple.pure fun _ h => hiff.mpr (h.mp rfl)
      | error e =>
        have hfail : ∀ c' : Console, ((.error e : Except Error WingNodeData).isOk = true ↔
            ([] : List WingResponse).length + (ahead id c.main.pending).length ≤
              maxAttendedBuffered ∧
              ∀ i < (ahead id c.main.pending).length, w.now (timed.tick + 1 + 2 * i) < deadline) →
            ¬ InReach w timeout c id := fun _ h h' => absurd (h.mpr (hiff.mp h')) (by
          simp [Except.isOk, Except.toBool])
        cases e
        case timeout => exact fun c' h => hfail c' h
        all_goals exact Triple.throw hfail
    have hget : Triple (· = c) (getNodeData w id timeout) (fun _ _ => InReach w timeout c id)
        (fun _ _ => ¬ InReach w timeout c id) := by
      have hrequest : Triple (· = c) (requestNodeData w id) (fun _ c' => c' = begun)
          (fun _ _ => ¬ InReach w timeout c id) := by
        rintro c' rfl
        rw [requestNodeData, request_usable htaint, writeAll, hw.write]
      have hnow : Triple (· = begun) (instantNow w)
          (fun now c' => now = w.now (c.tick + 1) ∧ c' = { begun with tick := c.tick + 2 })
          (fun _ _ => ¬ InReach w timeout c id) := by
        rintro c' rfl
        exact ⟨rfl, rfl⟩
      refine Triple.bind hrequest fun _ => Triple.bind hnow fun now => Triple.assume fun hnow => ?_
      subst hnow
      refine Triple.bind (Q := fun _ c' => c' = timed) (fun c' h => by rw [h]; rfl) fun _ => ?_
      exact Triple.attempt_finally huntil (fun _ _ h => h) fun _ _ h => h
    rcases hget.outcome rfl with ⟨_, _, ho, h⟩ | ⟨_, _, ho, h⟩
    · rw [ho]
      exact ⟨fun _ => h, fun _ => rfl⟩
    · rw [ho]
      exact ⟨fun hok => absurd hok (by simp [Except.isOk, Except.toBool]), fun h' => absurd h' h⟩

end Console

end LibWing
