import LibWing.Session.SelectorStop

/-!
# Coalesced writes equal individual writes

A bulk write queues the messages of its items and hands them to the transport in batches.  While the
session it began on is neither tainted nor replaced, every message goes out once, in one batch, and
its item takes the outcome of that batch.

* `setOp` : the individual write an item stands for;
* `writes` : the buffers a section handed to the transport, with the outcome of each;
* `Batched` : what became of the first items: some are in batches that went out, some are queued;
* `LoopInvariant` : what the loop over the items keeps, whatever that is;
* `writeNodeValues_during` : a bulk write whose session is left alone.
-/

namespace LibWing

open Interleave

namespace Session

/-- The individual write of an item: `set_string`, `set_float` or `set_int`. -/
def setOp : Int32 × NodeValue → ClientOp
  | (id, .string s) => .setString id s
  | (id, .float f) => .setFloat id f
  | (id, .int n) => .setInt id n

theorem setOp_message (item : Int32 × NodeValue) :
    (setOp item).message = setValueMessage item.1 item.2.toNative := by
  obtain ⟨id, value⟩ := item
  cases value <;> rfl

/-- The batch that was handed to the transport. -/
def Happening.batch : Happening → Option (List UInt8)
  | handed _ _ _ _ bytes => some bytes
  | _ => none

/-- The buffers a section handed to the transport, each with the outcome of its `write_all`. -/
def writes (env : Env) (s s' : Shared) : List (List UInt8 × Except IoErrorKind Unit) :=
  (s'.log.drop s.log.length).filterMap fun event => event.happening.batch.map (·, env.write)

theorem writes_of_log {env : Env} {s s' : Shared} {events : List Event}
    (h : s'.log = s.log ++ events) :
    writes env s s' = events.filterMap fun event => event.happening.batch.map (·, env.write) := by
  rw [writes, h, List.drop_left]

/-! ### Batches -/

/-- The places of items whose messages went out in one buffer, and how the write ended. -/
structure Batch where
  /-- The places of the items. -/
  places : List ℕ
  /-- How the write ended. -/
  outcome : Except IoErrorKind Unit

/-- The item at a place can be encoded. -/
def encodableAt (items : List (Int32 × NodeValue)) (i : ℕ) : Bool := items[i]?.any encodable

/-- The message of the item at a place. -/
def messageAt (items : List (Int32 × NodeValue)) (i : ℕ) : List UInt8 := items[i]?.elim [] itemBytes

/-- The buffer of a batch, with its outcome. -/
def Batch.write (items : List (Int32 × NodeValue)) (batch : Batch) :
    List UInt8 × Except IoErrorKind Unit :=
  (batch.places.flatMap (messageAt items), batch.outcome)

/-- What became of the first `n` items.  Every item that can be encoded is in exactly one batch, or
queued, in order; an item has its own encoding error or else the outcome of its batch. -/
structure Batched (items : List (Int32 × NodeValue)) (n : ℕ) (batches : List Batch)
    (queued : List ℕ) (results : List (Result Unit)) : Prop where
  /-- The items that can be encoded are in batches, or wait, in order. -/
  places : batches.flatMap (·.places) ++ queued = (List.range n).filter (encodableAt items)
  /-- Every item has a result. -/
  length : results.length = n
  /-- An item that cannot be encoded has its own error. -/
  unencodable : ∀ i item e, i < n → items[i]? = some item → (setOp item).message = .error e →
    results[i]? = some (.error e)
  /-- An item of a batch has the outcome of the batch. -/
  written : ∀ batch ∈ batches, ∀ i ∈ batch.places,
    results[i]? = some (batch.outcome.mapError .io)
  /-- An item that waits has not failed. -/
  waiting : ∀ i ∈ queued, results[i]? = some (.ok ())

variable {items : List (Int32 × NodeValue)} {n : ℕ} {batches : List Batch} {queued : List ℕ}
  {results : List (Result Unit)}

theorem encodable_of_message {item : Int32 × NodeValue} {bytes : List UInt8}
    (h : (setOp item).message = .ok bytes) : encodable item = true ∧ itemBytes item = bytes := by
  rw [setOp_message] at h
  simp [encodable, itemBytes, h, Except.isOk, Except.toBool]

theorem not_encodable_of_message {item : Int32 × NodeValue} {e : Error}
    (h : (setOp item).message = .error e) : encodable item = false := by
  rw [setOp_message] at h
  simp [encodable, h, Except.isOk, Except.toBool]

/-- A message has at least its opcode. -/
theorem itemBytes_ne_nil {item : Int32 × NodeValue} (h : encodable item = true) :
    itemBytes item ≠ [] := by
  unfold encodable at h
  unfold itemBytes
  cases hmsg : setValueMessage item.1 item.2.toNative with
  | error e =>
    rw [hmsg] at h
    cases h
  | ok bytes =>
    simp only [setValueMessage, appendValueMessage] at hmsg
    cases htoken : encodeValue item.2.toNative with
    | error e =>
      rw [htoken] at hmsg
      cases hmsg
    | ok token =>
      rw [htoken] at hmsg
      cases hmsg
      simp [appendEscaped_eq, formatId]

/-! ### Failing a batch -/

theorem getElem?_failAll_of_not_mem {e : Error} {i : ℕ} (h : i ∉ queued) :
    (failAll queued e results)[i]? = results[i]? := by
  unfold failAll
  induction queued generalizing results with
  | nil => rfl
  | cons q queued ih =>
    rw [List.mem_cons, not_or] at h
    rw [List.foldl_cons, ih h.2, List.getElem?_set_ne (Ne.symm h.1)]

theorem getElem?_failAll_of_mem {e : Error} {i : ℕ} (h : i ∈ queued) (hlt : i < results.length) :
    (failAll queued e results)[i]? = some (.error e) := by
  induction queued generalizing results with
  | nil => cases h
  | cons q queued ih =>
    show (failAll queued e (results.set q (.error e)))[i]? = _
    by_cases hrest : i ∈ queued
    · exact ih hrest (by rw [List.length_set]; exact hlt)
    · obtain rfl : i = q := (List.mem_cons.mp h).resolve_right hrest
      rw [getElem?_failAll_of_not_mem hrest, List.getElem?_set_self hlt]

/-! ### One item, one batch -/

theorem not_mem_of_nodup_append {β : Type} {places : β → List ℕ} {batches : List β} {batch : β}
    {i : ℕ} (h : (batches.flatMap places ++ queued).Nodup) (hbatch : batch ∈ batches)
    (hi : i ∈ places batch) : i ∉ queued := fun hqueued =>
  List.disjoint_of_nodup_append h (List.mem_flatMap.mpr ⟨batch, hbatch, hi⟩) hqueued

namespace Batched

theorem nodup (h : Batched items n batches queued results) :
    (batches.flatMap (·.places) ++ queued).Nodup := by
  rw [h.places]
  exact List.nodup_range.filter _

theorem encodableAt_of_queued (h : Batched items n batches queued results) {i : ℕ}
    (hi : i ∈ queued) : i < n ∧ encodableAt items i = true := by
  have hmem : i ∈ (List.range n).filter (encodableAt items) := by
    rw [← h.places]
    exact List.mem_append_right _ hi
  obtain ⟨hlt, henc⟩ := List.mem_filter.mp hmem
  exact ⟨List.mem_range.mp hlt, henc⟩

/-- An item that cannot be encoded takes a place in the results only. -/
theorem skip (h : Batched items n batches queued results) {item : Int32 × NodeValue} {e : Error}
    (hitem : items[n]? = some item) (he : (setOp item).message = .error e) :
    Batched items (n + 1) batches queued (results ++ [.error e]) where
  places := by
    have hno : encodableAt items n = false := by
      simp [encodableAt, hitem, not_encodable_of_message he]
    rw [List.range_succ, List.filter_append, List.filter_singleton, hno, h.places]
    simp
  length := by simp [h.length]
  unencodable i item' e' hi hitem' he' := by
    rcases Nat.lt_succ_iff_lt_or_eq.mp hi with hi | rfl
    · exact getElem?_append (h.unencodable i item' e' hi hitem' he')
    · rw [hitem] at hitem'
      cases hitem'
      rw [he] at he'
      cases he'
      exact h.length ▸ List.getElem?_concat_length
  written batch hbatch i hi := getElem?_append (h.written batch hbatch i hi)
  waiting i hi := getElem?_append (h.waiting i hi)

/-- An item that can be encoded joins the queue. -/
theorem queue (h : Batched items n batches queued results) {item : Int32 × NodeValue}
    {bytes : List UInt8} (hitem : items[n]? = some item) (hok : (setOp item).message = .ok bytes) :
    Batched items (n + 1) batches (queued ++ [n]) (results ++ [.ok ()]) where
  places := by
    have hyes : encodableAt items n = true := by
      simp [encodableAt, hitem, (encodable_of_message hok).1]
    rw [List.range_succ, List.filter_append, List.filter_singleton, hyes, ← h.places]
    simp
  length := by simp [h.length]
  unencodable i item' e' hi hitem' he' := by
    rcases Nat.lt_succ_iff_lt_or_eq.mp hi with hi | rfl
    · exact getElem?_append (h.unencodable i item' e' hi hitem' he')
    · rw [hitem] at hitem'
      cases hitem'
      rw [hok] at he'
      cases he'
  written batch hbatch i hi := getElem?_append (h.written batch hbatch i hi)
  waiting i hi := by
    rcases List.mem_append.mp hi with hi | hi
    · exact getElem?_append (h.waiting i hi)
    · obtain rfl := List.mem_singleton.mp hi
      exact h.length ▸ List.getElem?_concat_length

/-- The queue goes out in one buffer. -/
theorem flush (h : Batched items n batches queued results) {outcome : Except IoErrorKind Unit}
    {results' : List (Result Unit)} (hlen : results'.length = results.length)
    (hin : ∀ i ∈ queued, results'[i]? = some (outcome.mapError .io))
    (hout : ∀ i, i ∉ queued → results'[i]? = results[i]?) :
    Batched items n (batches ++ [⟨queued, outcome⟩]) [] results' where
  places := by
    rw [List.append_nil, List.flatMap_append, List.flatMap_singleton]
    exact h.places
  length := hlen.trans h.length
  unencodable i item e hi hitem he := by
    rw [hout i fun hq => ?_]
    · exact h.unencodable i item e hi hitem he
    · have henc := (h.encodableAt_of_queued hq).2
      rw [encodableAt, hitem, Option.any_some, not_encodable_of_message he] at henc
      cases henc
  written batch hbatch i hi := by
    rcases List.mem_append.mp hbatch with hbatch | hbatch
    · -- No item of an earlier batch is queued.
      rw [hout i (not_mem_of_nodup_append h.nodup hbatch hi)]
      exact h.written batch hbatch i hi
    · obtain rfl := List.mem_singleton.mp hbatch
      exact hin i hi
  waiting := nofun

end Batched

/-! ### The loop -/

variable {call : BulkCall} {slot : ℕ → ℕ} {buf : List UInt8}

/-- The buffer is empty exactly if nothing is queued. -/
theorem queued_eq_nil (h : Batched items n batches queued results)
    (hbuf : queued.flatMap (messageAt items) = []) : queued = [] := by
  refine List.eq_nil_iff_forall_not_mem.mpr fun i hi => ?_
  have hnil : messageAt items i = [] := List.flatMap_eq_nil_iff.mp hbuf i hi
  have henc := (h.encodableAt_of_queued hi).2
  unfold encodableAt at henc
  unfold messageAt at hnil
  cases hitem : items[i]? with
  | none =>
    rw [hitem] at henc
    cases henc
  | some item =>
    rw [hitem] at henc hnil
    exact itemBytes_ne_nil henc hnil

/-- What the loop keeps of the number of items behind it, of its buffer, queue and results, and of
what it has put out. -/
structure LoopInvariant {γ : Type} (call : BulkCall) (slot : ℕ → ℕ)
    (items : List (Int32 × NodeValue))
    (good : Shared → Prop) (obs : Env → Shared → Shared → List γ)
    (I : ℕ → List UInt8 → List ℕ → List (Result Unit) → List γ → Prop) : Prop where
  /-- Looking at the flag puts nothing out. -/
  quiet : ∀ env s, obs env s s = []
  /-- An item of a tainted session fails. -/
  tainted : ∀ s, good s → s.reader.streamTainted = true → ∀ n buf queued results out,
    I n buf queued results out → I (n + 1) buf queued (results ++ [.error .connectionError]) out
  /-- An item that cannot be encoded fails. -/
  unencodable : ∀ n item e, items[n]? = some item → (setOp item).message = .error e →
    ∀ buf queued results out, I n buf queued results out →
      I (n + 1) buf queued (results ++ [.error e]) out
  /-- An item that can be encoded is queued. -/
  queued : ∀ n item bytes, items[n]? = some item → (setOp item).message = .ok bytes →
    ∀ buf queued results out, I n buf queued results out →
      I (n + 1) (buf ++ bytes) (queued ++ [n]) (results ++ [.ok ()]) out
  /-- What is queued is flushed. -/
  flush : ∀ n buf queued results out, I n buf queued results out →
    (flushNodeWrites call slot buf queued results).During good obs fun results' out' =>
      I n [] [] results' (out ++ out')

/-- **The loop**, from an item on. -/
theorem LoopInvariant.writeLoop {γ : Type} {good : Shared → Prop}
    {obs : Env → Shared → Shared → List γ}
    {I : ℕ → List UInt8 → List ℕ → List (Result Unit) → List γ → Prop}
    (hI : LoopInvariant call slot items good obs I) {done rest : List (Int32 × NodeValue)}
    (hsplit : items = done ++ rest) {out : List γ} (h : I done.length buf queued results out) :
    (writeLoop call slot rest done.length buf queued results).During good obs
      fun results' out' => I items.length [] [] results' (out ++ out') := by
  induction rest generalizing done buf queued results out with
  | nil =>
    rw [List.append_nil] at hsplit
    subst hsplit
    exact hI.flush _ _ _ _ _ h
  | cons item rest ih =>
    obtain ⟨id, value⟩ := item
    have hitem : items[done.length]? = some (id, value) := by simp [hsplit]
    have hsplit' : items = done ++ [(id, value)] ++ rest := by simp [hsplit]
    have hlen : (done ++ [(id, value)]).length = done.length + 1 := List.length_append
    -- However the item fared, the loop goes on behind it, with the queue or without.
    have hcontinue : ∀ (buf : List UInt8) (queued : List ℕ) (results : List (Result Unit)),
        I (done.length + 1) buf queued results out →
        (if buf.length ≥ writeBatchBytes then do
            let results ← flushNodeWrites call slot buf queued results
            Session.writeLoop call slot rest (done.length + 1) [] [] results
          else Session.writeLoop call slot rest (done.length + 1) buf queued results).During
            good obs
          fun results' out' => I items.length [] [] results' (out ++ out') := by
      intro buf queued results h
      by_cases hfull : buf.length ≥ writeBatchBytes
      · rw [if_pos hfull]
        refine (hI.flush _ _ _ _ _ h).bind fun results' out' h' => ?_
        have hrest := ih hsplit' (hlen ▸ h')
        rw [hlen] at hrest
        exact hrest.mono fun _ _ hpost => by rwa [← List.append_assoc]
      · rw [if_neg hfull]
        have hrest := ih hsplit' (hlen ▸ h)
        rwa [hlen] at hrest
    intro env s hs _
    refine Prog.During.mono (P := fun results' out' => I items.length [] [] results' (out ++ out'))
      ?_ fun _ _ hpost => by
        show I _ _ _ _ (out ++ (obs env s s ++ _))
        rwa [hI.quiet, List.nil_append]
    show Prog.During _ _ (if s.reader.streamTainted = true then _ else _) _
    by_cases htaint : s.reader.streamTainted = true
    · rw [if_pos htaint]
      exact hcontinue _ _ _ (hI.tainted s hs htaint _ _ _ _ _ h)
    rw [if_neg htaint]
    have happend := appendValueMessage_eq buf (id, value)
    cases hmsg : (setOp (id, value)).message with
    | error e =>
      rw [← setOp_message, hmsg] at happend
      simp only [happend, Except.map]
      exact hcontinue _ _ _ (hI.unencodable _ _ _ hitem hmsg _ _ _ _ h)
    | ok bytes =>
      rw [← setOp_message, hmsg] at happend
      simp only [happend, Except.map]
      exact hcontinue _ _ _ (hI.queued _ _ _ hitem hmsg _ _ _ _ h)

theorem flushNodeWrites_during (h : Batched items n batches queued results)
    (hbuf : buf = queued.flatMap (messageAt items)) :
    (flushNodeWrites call slot buf queued results).During (Undisturbed call.generation) writes
      fun results' written => ∃ new : List Batch, Batched items n (batches ++ new) [] results' ∧
        written = new.map (Batch.write items) := by
  unfold flushNodeWrites
  by_cases hempty : buf = []
  · rw [if_pos hempty]
    obtain rfl := queued_eq_nil h (hbuf ▸ hempty)
    refine ⟨[], ?_, rfl⟩
    rw [List.append_nil]
    exact h
  rw [if_neg hempty]
  refine .atomically fun env s ⟨htaint, hreconnecting, hgeneration⟩ => ?_
  have hsession : (s.reconnecting || s.sessionGeneration ≠ call.generation) = false := by
    simp [hreconnecting, hgeneration]
  simp only [htaint, hsession, Bool.false_eq_true, if_false]
  refine ⟨[⟨queued, env.write⟩], ?_⟩
  cases hwrite : env.write with
  | ok u =>
    refine ⟨h.flush rfl h.waiting fun _ _ => rfl, ?_⟩
    refine (writes_of_log (rfl : _ = s.log ++ [_])).trans ?_
    simp [Happening.batch, Batch.write, hbuf, hwrite]
  | error kind =>
    refine ⟨h.flush (failAll_length _ _ _) (fun i hi => ?_) fun i hi =>
      getElem?_failAll_of_not_mem hi, ?_⟩
    · exact getElem?_failAll_of_mem hi (h.length ▸ (h.encodableAt_of_queued hi).1)
    · refine (writes_of_log (List.append_assoc _ _ _)).trans ?_
      simp [Happening.batch, Batch.write, hbuf, hwrite]

/-- The batches that have gone out are those of the items behind the loop. -/
def BatchedSoFar (items : List (Int32 × NodeValue)) (n : ℕ) (buf : List UInt8) (queued : List ℕ)
    (results : List (Result Unit)) (written : List (List UInt8 × Except IoErrorKind Unit)) : Prop :=
  ∃ batches : List Batch, Batched items n batches queued results ∧
    buf = queued.flatMap (messageAt items) ∧ written = batches.map (Batch.write items)

theorem batchedSoFar_invariant : LoopInvariant call slot items (Undisturbed call.generation) writes
    (BatchedSoFar items) where
  quiet env s := by simp [writes]
  tainted s hs htaint := by
    rw [hs.1] at htaint
    cases htaint
  unencodable n item e hitem he buf queued results written h := by
    obtain ⟨batches, h, hbuf, hwritten⟩ := h
    exact ⟨batches, h.skip hitem he, hbuf, hwritten⟩
  queued n item bytes hitem hok buf queued results written h := by
    obtain ⟨batches, h, hbuf, hwritten⟩ := h
    refine ⟨batches, h.queue hitem hok, ?_, hwritten⟩
    rw [List.flatMap_append, List.flatMap_singleton, hbuf]
    simp [messageAt, hitem, (encodable_of_message hok).2]
  flush n buf queued results written h := by
    obtain ⟨batches, h, hbuf, rfl⟩ := h
    refine (flushNodeWrites_during h hbuf).mono ?_
    rintro results' written' ⟨new, h', rfl⟩
    exact ⟨batches ++ new, h', rfl, List.map_append.symm⟩

/-! ### The bytes -/

theorem flatMap_messageAt (hn : n ≤ items.length) :
    ((List.range n).filter (encodableAt items)).flatMap (messageAt items) =
      ((items.take n).filter encodable).flatMap itemBytes := by
  induction n with
  | zero => rfl
  | succ n ih =>
    have hget := List.getElem?_eq_getElem hn
    have hat : encodableAt items n = encodable items[n] := by
      rw [encodableAt, hget, Option.any_some]
    rw [List.range_succ, List.filter_append, List.flatMap_append, ih (Nat.le_of_succ_le hn),
      List.take_add_one, hget, Option.toList_some, List.filter_append, List.flatMap_append,
      List.filter_singleton, List.filter_singleton, hat]
    cases encodable items[n] with
    | false => rfl
    | true => simp [messageAt, hget]

theorem clientBytes_setOp {sent : List (Int32 × NodeValue)}
    (h : ∀ item ∈ sent, encodable item = true) :
    clientBytes (sent.map setOp) = .ok (sent.flatMap itemBytes) := by
  induction sent with
  | nil => rfl
  | cons item sent ih =>
    have hrest := ih fun item' hmem => h item' (List.mem_cons_of_mem _ hmem)
    have henc := h item (List.mem_cons_self ..)
    cases hmsg : (setOp item).message with
    | error e =>
      rw [not_encodable_of_message hmsg] at henc
      cases henc
    | ok bytes =>
      rw [List.map_cons, clientBytes, hmsg, hrest, List.flatMap_cons, (encodable_of_message hmsg).2]
      rfl

/-- **Coalesced writes equal individual writes.**  In every execution of a bulk write during which
its session is neither tainted nor replaced, whatever the outcomes of its writes are, the items that
can be encoded fall into batches in order; a batch is the messages of its items and goes out in one
buffer; the buffers together are the bytes of the individual writes; and an item ends with its own
encoding error or with the outcome of its batch. -/
theorem writeNodeValues_during (call : BulkCall) (slot : ℕ → ℕ) (items : List (Int32 × NodeValue)) :
    (writeNodeValues call slot items).During (Undisturbed call.generation) writes
      fun results written => ∃ batches : List Batch,
        Batched items items.length batches [] results ∧
        written = batches.map (Batch.write items) ∧
        clientBytes ((items.filter encodable).map setOp) = .ok (written.flatMap (·.1)) := by
  have hstart : Batched items 0 [] [] [] := {
    places := rfl
    length := rfl
    unencodable := nofun
    written := nofun
    waiting := nofun }
  have hinvariant : LoopInvariant call slot items (Undisturbed call.generation) writes
      (BatchedSoFar items) := batchedSoFar_invariant
  have hloop := hinvariant.writeLoop (List.nil_append items).symm ⟨[], hstart, rfl, rfl⟩
  refine hloop.mono ?_
  rintro results written ⟨batches, h, -, rfl⟩
  refine ⟨batches, h, rfl, ?_⟩
  have hplaces := h.places
  rw [List.append_nil] at hplaces
  rw [clientBytes_setOp fun item hmem => (List.mem_filter.mp hmem).2, List.flatMap_map]
  simp only [Batch.write]
  rw [← List.flatMap_assoc, hplaces, flatMap_messageAt le_rfl, List.take_length]

theorem runSolo_writeLoop_of_room {i : ℕ} {s : Shared} {rest : List (Int32 × NodeValue)}
    {envs envs' : List Env} (htaint : s.reader.streamTainted = false)
    (henc : ∀ item ∈ items, encodable item = true)
    (hroom : (buf ++ items.flatMap itemBytes).length < writeBatchBytes)
    (henvs : envs.length = items.length) :
    (writeLoop call slot (items ++ rest) i buf queued results).runSolo (envs ++ envs') s =
      (writeLoop call slot rest (i + items.length) (buf ++ items.flatMap itemBytes)
        (queued ++ List.range' i items.length)
        (results ++ List.replicate items.length (.ok ()))).runSolo envs' s := by
  induction items generalizing i buf queued results envs with
  | nil =>
    obtain rfl := List.length_eq_zero_iff.mp henvs
    simp
  | cons item items ih =>
    obtain ⟨id, value⟩ := item
    cases envs with
    | nil => cases henvs
    | cons env envs =>
      have hitem := henc _ (List.mem_cons_self ..)
      cases hmsg : setValueMessage id value.toNative with
      | error e =>
        rw [encodable, hmsg] at hitem
        cases hitem
      | ok bytes =>
        have hbytes : itemBytes (id, value) = bytes := by rw [itemBytes, hmsg]
        rw [List.flatMap_cons, hbytes, ← List.append_assoc] at hroom ⊢
        have happend := appendValueMessage_eq buf (id, value)
        rw [hmsg] at happend
        have hlt : ¬ (buf ++ bytes).length ≥ writeBatchBytes := by
          rw [List.length_append] at hroom
          omega
        have hrest := @ih (queued ++ [i]) (results ++ [.ok ()]) (buf ++ bytes) (i + 1) envs
          (fun item hmem => henc item (List.mem_cons_of_mem _ hmem)) hroom (Nat.succ.inj henvs)
        simp only [List.append_assoc, List.singleton_append] at hrest
        simp only [List.cons_append, writeLoop, happend, Except.map, if_neg hlt, List.length_cons,
          List.range'_succ, List.replicate_succ]
        show (if s.reader.streamTainted = true then _ else _ : Thread _).runSolo
          (envs ++ envs') s = _
        rw [htaint, if_neg Bool.false_ne_true, List.append_assoc, Nat.add_comm items.length,
          ← Nat.add_assoc]
        exact hrest

/-- A bulk write that is left alone, in two batches: the write of the first fails, and the second
goes out. -/
example :
    let text (n : ℕ) : Int32 × NodeValue := (1, .string (String.ofList (List.replicate n 'x')))
    let filling := List.replicate 31 (text 256) ++ [text 32]
    let env (write : Except IoErrorKind Unit) : Env :=
      ⟨0, .steady, .error .reconnecting, none, write, .error .timedOut⟩
    let envs := List.replicate 32 (env (.ok ())) ++
      [env (.ok ()), env (.error .timedOut), env (.ok ()), env (.ok ())]
    ((writeNodeValues ⟨0, 0, 0⟩ id (filling ++ [(1, .int 5), (2, .int 5)])).runSolo envs
        (.new 0 [])).map (fun (results, s) => (results, s.reader.wsock)) =
      some (List.replicate 33 (.error (.io .timedOut)) ++ [.ok ()], [[0xd7, 0, 0, 0, 2, 5]]) := by
  intro text filling env envs
  rw [writeNodeValues, runSolo_writeLoop_of_room rfl (by decide +kernel) (by decide +kernel) rfl]
  decide +kernel

end Session

end LibWing
