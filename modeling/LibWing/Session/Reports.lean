import LibWing.Session.Batches

/-!
# What becomes of the items of a bulk write

A bulk write notes the batches that it hands to the transport and the items that it gives
up.  Whatever happens to its session in between, the notes tell what has become of every item.

* `Report`, `reports` : what a section has sent, and what it has noted;
* `Handled`, `Handled.report` : a batch and how it ended, and what is reported of it;
* `Parted` : what became of the first items: every item that has been queued is in one batch;
* `writeNodeValues_reports` : a bulk write, whatever the others do.
-/

namespace LibWing

open Interleave

namespace Session

/-! ### Reports -/

/-- What a section has sent and noted. -/
structure Report where
  /-- The buffers that have reached the transport. -/
  sent : List (List UInt8)
  /-- The buffers that were handed to it, as noted. -/
  handed : List (List UInt8)
  /-- The items that have not been written, as noted. -/
  unwritten : List ℕ
  deriving DecidableEq

/-- The items that were given up. -/
def Happening.unwrittenSlots : Happening → List ℕ
  | unwritten _ slots => slots
  | _ => []

/-- The report of a section, unless it has neither sent nor noted anything of a batch. -/
def reports (_ : Env) (s s' : Shared) : List Report :=
  let events := s'.log.drop s.log.length
  let report : Report :=
    { sent := s'.reader.wsock.drop s.reader.wsock.length
      handed := events.filterMap fun event => event.happening.batch
      unwritten := events.flatMap fun event => event.happening.unwrittenSlots }
  if report = ⟨[], [], []⟩ then [] else [report]

theorem reports_self (env : Env) (s : Shared) : reports env s s = [] := by
  simp [reports]

theorem reports_eq {env : Env} {s s' : Shared} {report : Report} (events : List Event)
    (sent : List (List UInt8)) (hlog : s'.log = s.log ++ events)
    (hsent : s'.reader.wsock = s.reader.wsock ++ sent)
    (hreport : report = ⟨sent, events.filterMap fun event => event.happening.batch,
      events.flatMap fun event => event.happening.unwrittenSlots⟩)
    (hne : report ≠ ⟨[], [], []⟩) : reports env s s' = [report] := by
  simp only [reports, hlog, hsent, List.drop_left, ← hreport]
  exact if_neg hne

/-! ### Batches that may have been given up -/

/-- The places of items that were queued together, and how that ended. -/
structure Handled where
  /-- The places of the items. -/
  places : List ℕ
  /-- How it ended. -/
  outcome : Result Unit

/-- What is reported of a batch: only one that is written reaches the transport, and only one that
is not is given up. -/
def Handled.report (items : List (Int32 × NodeValue)) (slot : ℕ → ℕ) (b : Handled) : Report :=
  let bytes := b.places.flatMap (messageAt items)
  match b.outcome with
  | .ok _ => ⟨[bytes], [bytes], []⟩
  | .error (.io _) => ⟨[], [bytes], b.places.map slot⟩
  | .error _ => ⟨[], [], b.places.map slot⟩

/-- What became of the first `n` items.  Every item is in one batch at most, or queued, in order; an
item has the outcome of its batch, and one that is in none has failed. -/
structure Parted (items : List (Int32 × NodeValue)) (n : ℕ) (batches : List Handled)
    (queued : List ℕ) (results : List (Result Unit)) : Prop where
  /-- No item is in two batches, or waits in one. -/
  places : (batches.flatMap (·.places) ++ queued).Sublist (List.range n)
  /-- Every item has a result. -/
  length : results.length = n
  /-- An item of a batch has the outcome of the batch. -/
  handled : ∀ b ∈ batches, ∀ i ∈ b.places, results[i]? = some b.outcome
  /-- An item that waits has not failed, and has a message. -/
  waiting : ∀ i ∈ queued, results[i]? = some (.ok ()) ∧ messageAt items i ≠ []
  /-- Any other item has failed. -/
  others : ∀ i < n, i ∉ batches.flatMap (·.places) ++ queued → ∃ e, results[i]? = some (.error e)

variable {items : List (Int32 × NodeValue)} {n : ℕ} {batches : List Handled} {queued : List ℕ}
  {results : List (Result Unit)}

namespace Parted

theorem nodup (h : Parted items n batches queued results) :
    (batches.flatMap (·.places) ++ queued).Nodup :=
  h.places.nodup List.nodup_range

/-- The next item fails at once. -/
theorem skip (h : Parted items n batches queued results) (e : Error) :
    Parted items (n + 1) batches queued (results ++ [.error e]) where
  places := h.places.trans (List.range_succ ▸ List.sublist_append_left _ _)
  length := by simp [h.length]
  handled b hb i hi := getElem?_append (h.handled b hb i hi)
  waiting i hi := ⟨getElem?_append (h.waiting i hi).1, (h.waiting i hi).2⟩
  others i hi hnot := by
    rcases Nat.lt_succ_iff_lt_or_eq.mp hi with hi | rfl
    · obtain ⟨e', he'⟩ := h.others i hi hnot
      exact ⟨e', getElem?_append he'⟩
    · exact ⟨e, h.length ▸ List.getElem?_concat_length⟩

/-- The next item joins the queue. -/
theorem queue (h : Parted items n batches queued results) (hmessage : messageAt items n ≠ []) :
    Parted items (n + 1) batches (queued ++ [n]) (results ++ [.ok ()]) where
  places := by
    rw [← List.append_assoc, List.range_succ]
    exact h.places.append (List.Sublist.refl [n])
  length := by simp [h.length]
  handled b hb i hi := getElem?_append (h.handled b hb i hi)
  waiting i hi := by
    rcases List.mem_append.mp hi with hi | hi
    · exact ⟨getElem?_append (h.waiting i hi).1, (h.waiting i hi).2⟩
    · obtain rfl := List.mem_singleton.mp hi
      exact ⟨h.length ▸ List.getElem?_concat_length, hmessage⟩
  others i hi hnot := by
    rw [← List.append_assoc, List.mem_append, not_or, List.mem_singleton] at hnot
    obtain ⟨e, he⟩ := h.others i (Nat.lt_of_le_of_ne (Nat.le_of_lt_succ hi) hnot.2) hnot.1
    exact ⟨e, getElem?_append he⟩

/-- The queue becomes a batch. -/
theorem flush (h : Parted items n batches queued results) {outcome : Result Unit}
    {results' : List (Result Unit)} (hlen : results'.length = results.length)
    (hin : ∀ i ∈ queued, results'[i]? = some outcome)
    (hout : ∀ i, i ∉ queued → results'[i]? = results[i]?) :
    Parted items n (batches ++ [⟨queued, outcome⟩]) [] results' where
  places := by
    rw [List.append_nil, List.flatMap_append, List.flatMap_singleton]
    exact h.places
  length := hlen.trans h.length
  handled b hb i hi := by
    rcases List.mem_append.mp hb with hb | hb
    · rw [hout i (not_mem_of_nodup_append h.nodup hb hi)]
      exact h.handled b hb i hi
    · obtain rfl := List.mem_singleton.mp hb
      exact hin i hi
  waiting := nofun
  others i hi hnot := by
    rw [List.append_nil, List.flatMap_append, List.flatMap_singleton] at hnot
    rw [hout i fun hq => hnot (List.mem_append_right _ hq)]
    exact h.others i hi hnot

/-- The queue is given up. -/
theorem fail (h : Parted items n batches queued results) (e : Error) :
    Parted items n (batches ++ [⟨queued, .error e⟩]) [] (failAll queued e results) := by
  refine h.flush (failAll_length _ _ _) (fun i hi => ?_) fun i hi => getElem?_failAll_of_not_mem hi
  have hlt : i < n := List.mem_range.mp (h.places.subset (List.mem_append_right _ hi))
  exact getElem?_failAll_of_mem hi (h.length ▸ hlt)

/-- The buffer is empty exactly if nothing is queued. -/
theorem queued_eq_nil (h : Parted items n batches queued results)
    (hbuf : queued.flatMap (messageAt items) = []) : queued = [] :=
  List.eq_nil_iff_forall_not_mem.mpr fun i hi =>
    (h.waiting i hi).2 (List.flatMap_eq_nil_iff.mp hbuf i hi)

end Parted

/-! ### The loop -/

variable {call : BulkCall} {slot : ℕ → ℕ} {buf : List UInt8}

theorem reports_unwritten {env : Env} {s : Shared} (hqueued : queued.map slot ≠ []) :
    reports env s (s.record call.thread (.unwritten call.since (queued.map slot))) =
      [⟨[], [], queued.map slot⟩] := by
  refine reports_eq [_] [] rfl (List.append_nil _).symm ?_ ?_
  · simp [Happening.batch, Happening.unwrittenSlots]
  · simpa using hqueued

/-- **One flush**: the queue becomes a batch, and the section reports what has become of it. -/
theorem flushNodeWrites_reports (h : Parted items n batches queued results)
    (hbuf : buf = queued.flatMap (messageAt items)) :
    (flushNodeWrites call slot buf queued results).During (fun _ => True) reports
      fun results' out => ∃ new : List Handled, Parted items n (batches ++ new) [] results' ∧
        out = new.map (Handled.report items slot) := by
  unfold flushNodeWrites
  by_cases hempty : buf = []
  · rw [if_pos hempty]
    obtain rfl := h.queued_eq_nil (hbuf ▸ hempty)
    refine ⟨[], ?_, rfl⟩
    rw [List.append_nil]
    exact h
  rw [if_neg hempty]
  have hqueued : queued.map slot ≠ [] := by
    intro hnil
    rw [List.map_eq_nil_iff.mp hnil] at hbuf
    exact hempty hbuf
  refine .atomically fun env s _ => ?_
  by_cases htaint : s.reader.streamTainted = true
  · simp only [htaint, if_true]
    exact ⟨[⟨queued, .error .connectionError⟩], h.fail _, reports_unwritten hqueued⟩
  simp only [htaint, Bool.false_eq_true, if_false]
  by_cases hsession : (s.reconnecting || s.sessionGeneration ≠ call.generation) = true
  · simp only [hsession, if_true]
    exact ⟨[⟨queued, .error .reconnecting⟩], h.fail _, reports_unwritten hqueued⟩
  simp only [hsession, Bool.false_eq_true, if_false]
  cases hwrite : env.write with
  | ok u =>
    refine ⟨[⟨queued, .ok ()⟩], h.flush rfl (fun i hi => (h.waiting i hi).1) fun _ _ => rfl, ?_⟩
    refine reports_eq [_] [buf] rfl rfl ?_ ?_
    · simp [Handled.report, Happening.batch, Happening.unwrittenSlots, hbuf]
    · simp [Handled.report]
  | error kind =>
    refine ⟨[⟨queued, .error (.io kind)⟩], h.fail _, ?_⟩
    refine reports_eq [_, _] [] (List.append_assoc _ _ _)
      (List.append_nil _).symm ?_ ?_
    · simp [Handled.report, Happening.batch, Happening.unwrittenSlots, hbuf]
    · simp [Handled.report]

/-- The batches that have been reported are those of the items behind the loop. -/
def PartedSoFar (items : List (Int32 × NodeValue)) (slot : ℕ → ℕ) (n : ℕ) (buf : List UInt8)
    (queued : List ℕ) (results : List (Result Unit)) (out : List Report) : Prop :=
  ∃ batches : List Handled, Parted items n batches queued results ∧
    buf = queued.flatMap (messageAt items) ∧ out = batches.map (Handled.report items slot)

theorem partedSoFar_invariant : LoopInvariant call slot items (fun _ => True) reports
    (PartedSoFar items slot) where
  quiet := reports_self
  tainted s _ _ n buf queued results out h := by
    obtain ⟨batches, h, hbuf, hout⟩ := h
    exact ⟨batches, h.skip _, hbuf, hout⟩
  unencodable n item e _ _ buf queued results out h := by
    obtain ⟨batches, h, hbuf, hout⟩ := h
    exact ⟨batches, h.skip e, hbuf, hout⟩
  queued n item bytes hitem hok buf queued results out h := by
    obtain ⟨batches, h, hbuf, hout⟩ := h
    obtain ⟨hencodable, hbytes⟩ := encodable_of_message hok
    have hmessage : messageAt items n = bytes := by
      rw [messageAt, hitem]
      exact hbytes
    refine ⟨batches, h.queue ?_, ?_, hout⟩
    · rw [hmessage, ← hbytes]
      exact itemBytes_ne_nil hencodable
    · rw [List.flatMap_append, List.flatMap_singleton, hbuf, hmessage]
  flush n buf queued results out h := by
    obtain ⟨batches, h, hbuf, rfl⟩ := h
    refine (flushNodeWrites_reports h hbuf).mono ?_
    rintro results' out' ⟨new, h', rfl⟩
    exact ⟨batches ++ new, h', rfl, List.map_append.symm⟩

/-- **What becomes of the items of a bulk write**, whatever happens to its session and whatever its
writes end with: every item that was queued is in exactly one batch, and has its outcome.  A batch
is noted as handed over exactly if it is given to the transport, with the bytes of its messages;
these bytes are what reaches the transport, and a batch that does not is noted as unwritten. -/
theorem writeNodeValues_reports (call : BulkCall) (slot : ℕ → ℕ)
    (items : List (Int32 × NodeValue)) :
    (writeNodeValues call slot items).During (fun _ => True) reports fun results out =>
      ∃ batches : List Handled, Parted items items.length batches [] results ∧
        out = batches.map (Handled.report items slot) := by
  have hstart : Parted items 0 [] [] [] := {
    places := List.Sublist.refl _
    length := rfl
    handled := nofun
    waiting := nofun
    others := nofun }
  have hinvariant : LoopInvariant call slot items (fun _ => True) reports
      (PartedSoFar items slot) := partedSoFar_invariant
  have hloop := hinvariant.writeLoop (List.nil_append items).symm ⟨[], hstart, rfl, rfl⟩
  refine hloop.mono ?_
  rintro results out ⟨batches, h, -, hout⟩
  exact ⟨batches, h, hout⟩

end Session

end LibWing
