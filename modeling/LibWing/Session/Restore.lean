import LibWing.Session.BulkOutline
import LibWing.Lib.Path

/-!
# What a restore writes

A restore puts the model selectors first and flushes after each of them, so that it can stop at one
that fails.  This file says what any execution of a restore hands to the transport and what it
reports, whatever the transport answers and whatever other clones do in between.

* `handedBytes` : what a section handed to the transport;
* `Wrote`, `Flushed` : what became of the items of a batch;
* `Running`, `Stopped` : a restore none of whose selectors has failed to be written, and one that
  has stopped at such a selector;
* `restore_always` : every execution of a restore is one or the other.
-/

namespace LibWing

open Interleave

namespace Session

/-! ### What an execution hands to the transport -/

/-- The bytes of a batch that was handed to the transport. -/
def Happening.handedBytes : Happening → List UInt8
  | handed _ _ _ _ bytes => bytes
  | _ => []

/-- What a section handed to the transport. -/
def handedBytes (s s' : Shared) : List UInt8 :=
  (s'.log.drop s.log.length).flatMap fun event => event.happening.handedBytes

theorem handedBytes_of_log {s s' : Shared} {events : List Event} (h : s'.log = s.log ++ events) :
    handedBytes s s' = events.flatMap fun event => event.happening.handedBytes := by
  rw [handedBytes, h, List.drop_left]

@[simp] theorem handedBytes_record (s : Shared) (t : ℕ) (h : Happening) :
    handedBytes s (s.record t h) = h.handedBytes := by
  simp [handedBytes, Shared.record]

@[simp] theorem handedBytes_self (s : Shared) : handedBytes s s = [] := by
  simp [handedBytes]

/-- The message of an item, if it has one. -/
def itemBytes (item : Int32 × NodeValue) : List UInt8 :=
  match setValueMessage item.1 item.2.toNative with
  | .ok bytes => bytes
  | .error _ => []

/-- The item can be encoded. -/
def encodable (item : Int32 × NodeValue) : Bool := (setValueMessage item.1 item.2.toNative).isOk

theorem appendValueMessage_eq (buf : List UInt8) (item : Int32 × NodeValue) :
    appendValueMessage buf item.1 item.2.toNative =
      (setValueMessage item.1 item.2.toNative).map (buf ++ ·) := by
  simp only [setValueMessage, appendValueMessage]
  cases encodeValue item.2.toNative with
  | error e => rfl
  | ok token => simp [Except.map, Bind.bind, Except.bind, Pure.pure, Except.pure, appendEscaped_eq,
      formatId]

/-! ### Batches -/

/-- What became of some items: failures stay, what was handed are messages of some of the items, in
order, and of all of them if nothing failed. -/
structure Wrote (items : List (Int32 × NodeValue)) (results results' : List (Result Unit))
    (bytes : List UInt8) : Prop where
  /-- What has failed stays failed. -/
  keeps : ∀ j, Failed results j → Failed results' j
  /-- What was handed over are messages of items, in order. -/
  sent : ∃ sent : List (Int32 × NodeValue), sent.Sublist items ∧ bytes = sent.flatMap itemBytes
  /-- If nothing failed, it is all of them. -/
  all : (∀ j, ¬ Failed results' j) → bytes = items.flatMap itemBytes

namespace Wrote

variable {items items' : List (Int32 × NodeValue)} {results results' results'' : List (Result Unit)}
  {bytes bytes' : List UInt8}

theorem append (h : Wrote items results results' bytes)
    (h' : Wrote items' results' results'' bytes') :
    Wrote (items ++ items') results results'' (bytes ++ bytes') where
  keeps j hj := h'.keeps j (h.keeps j hj)
  sent := by
    obtain ⟨sent, hsub, rfl⟩ := h.sent
    obtain ⟨sent', hsub', rfl⟩ := h'.sent
    exact ⟨sent ++ sent', hsub.append hsub', List.flatMap_append.symm⟩
  all hok := by
    rw [h'.all hok, h.all fun j hj => hok j (h'.keeps j hj), List.flatMap_append]

/-- An item whose result is put down. -/
theorem later {result : Result Unit} (h : Wrote items (results ++ [result]) results' bytes) :
    Wrote items results results' bytes :=
  { h with keeps := fun j hj => h.keeps j (hj.append _) }

/-- An item that fails at once is not written. -/
theorem skip {item : Int32 × NodeValue} {e : Error}
    (h : Wrote (items ++ items') (results ++ [.error e]) results' bytes) :
    Wrote (items ++ item :: items') results results' bytes where
  keeps j hj := h.keeps j (hj.append _)
  sent := by
    obtain ⟨sent, hsub, hbytes⟩ := h.sent
    exact ⟨sent, hsub.trans ((List.sublist_cons_self item items').append_left items), hbytes⟩
  all hok := absurd (h.keeps results.length ⟨e, List.getElem?_concat_length⟩) (hok _)

end Wrote

variable {call : BulkCall} {slot : ℕ → ℕ}

theorem flushNodeWrites_always {pend : List (Int32 × NodeValue)} {buf : List UInt8}
    {queued : List ℕ} {results : List (Result Unit)} (hbuf : buf = pend.flatMap itemBytes)
    (hlen : queued.length = pend.length) (hq : ∀ i ∈ queued, i < results.length) :
    (flushNodeWrites call slot buf queued results).Always handedBytes fun results' bytes =>
      results'.length = results.length ∧ Wrote pend results results' bytes := by
  by_cases hempty : buf = []
  · rw [flushNodeWrites, if_pos hempty]
    refine ⟨rfl, fun _ h => h, ⟨[], List.nil_sublist _, rfl⟩, fun _ => ?_⟩
    rw [← hbuf, hempty]
  rw [flushNodeWrites, if_neg hempty]
  -- A batch that is not written fails its items, and there are some.
  have hfail : ∀ (e : Error) (bytes : List UInt8),
      (∃ sent : List (Int32 × NodeValue), sent.Sublist pend ∧ bytes = sent.flatMap itemBytes) →
      (failAll queued e results).length = results.length ∧
        Wrote pend results (failAll queued e results) bytes := by
    refine fun e bytes hsent => ⟨failAll_length _ _ _, fun j hj => hj.failAll, hsent, fun hok => ?_⟩
    have hne : queued ≠ [] := by
      rintro rfl
      have : pend = [] := List.eq_nil_of_length_eq_zero hlen.symm
      exact hempty (by rw [hbuf, this]; rfl)
    obtain ⟨i, hi⟩ := List.exists_mem_of_ne_nil _ hne
    exact absurd (failed_failAll hi (hq i hi)) (hok i)
  refine .atomically fun env s => ?_
  by_cases htaint : s.reader.streamTainted = true
  · simp only [if_pos htaint, handedBytes_record]
    exact hfail _ _ ⟨[], List.nil_sublist _, rfl⟩
  by_cases hsession : (s.reconnecting || s.sessionGeneration ≠ call.generation) = true
  · simp only [if_neg htaint, if_pos hsession, handedBytes_record]
    exact hfail _ _ ⟨[], List.nil_sublist _, rfl⟩
  simp only [if_neg htaint, if_neg hsession]
  cases env.write with
  | ok u =>
    have hbytes : handedBytes s ((s.write buf).record call.thread (.handed call.since
        (s.write buf).installed (s.write buf).reconnecting
          (s.write buf).reader.streamTainted buf)) =
        buf := handedBytes_record (s.write buf) _ _
    refine ⟨rfl, ?_⟩
    show Wrote pend results results (handedBytes s _)
    rw [hbytes]
    exact ⟨fun _ h => h, ⟨pend, List.Sublist.refl _, hbuf⟩, fun _ => hbuf⟩
  | error kind =>
    refine hfail _ _ ⟨pend, List.Sublist.refl _, ?_⟩
    rw [handedBytes_of_log (List.append_assoc _ _ _), ← hbuf]
    simp [Happening.handedBytes]

theorem writeLoop_always {pend items : List (Int32 × NodeValue)} {i : ℕ} {buf : List UInt8}
    {queued : List ℕ} {results : List (Result Unit)} (hbuf : buf = pend.flatMap itemBytes)
    (hlen : queued.length = pend.length) (hi : results.length = i) (hq : ∀ q ∈ queued, q < i) :
    (writeLoop call slot items i buf queued results).Always handedBytes fun results' bytes =>
      results'.length = i + items.length ∧ Wrote (pend ++ items) results results' bytes ∧
        ∀ k item, items[k]? = some item → encodable item = false → Failed results' (i + k) := by
  induction items generalizing pend i buf queued results with
  | nil =>
    subst hi
    refine (flushNodeWrites_always hbuf hlen hq).mono fun results' bytes h => ⟨h.1, ?_, nofun⟩
    rw [List.append_nil]
    exact h.2
  | cons item items ih =>
    obtain ⟨id, value⟩ := item
    -- However the item fared, the loop goes on with its result at the end.
    have hcontinue : ∀ (pend' : List (Int32 × NodeValue)) (buf : List UInt8) (queued : List ℕ)
        (result : Result Unit), buf = pend'.flatMap itemBytes → queued.length = pend'.length →
        (∀ q ∈ queued, q < i + 1) →
        (∀ results' bytes, Wrote (pend' ++ items) (results ++ [result]) results' bytes →
          Wrote (pend ++ (id, value) :: items) results results' bytes) →
        (encodable (id, value) = false → ∃ e, result = .error e) →
        (if buf.length ≥ writeBatchBytes then do
            let results ← flushNodeWrites call slot buf queued (results ++ [result])
            writeLoop call slot items (i + 1) [] [] results
          else writeLoop call slot items (i + 1) buf queued (results ++ [result])).Always
            handedBytes
          fun results' bytes => results'.length = i + (items.length + 1) ∧
            Wrote (pend ++ (id, value) :: items) results results' bytes ∧
            ∀ k item, ((id, value) :: items)[k]? = some item → encodable item = false →
              Failed results' (i + k) := by
      intro pend' buf queued result hbuf hlen hq hwrote henc
      have hi' : (results ++ [result]).length = i + 1 := by simp [hi]
      -- Its own failure is at its place, and later failures are where the loop puts them.
      have hfailed : ∀ results' : List (Result Unit),
          (∀ j, Failed (results ++ [result]) j → Failed results' j) →
          (∀ k item, items[k]? = some item → encodable item = false →
            Failed results' (i + 1 + k)) →
          ∀ k item, ((id, value) :: items)[k]? = some item → encodable item = false →
            Failed results' (i + k) := by
        intro results' hkeeps hlater k item hk hitem
        cases k with
        | zero =>
          cases hk
          obtain ⟨e, rfl⟩ := henc hitem
          exact hkeeps _ ⟨e, by rw [Nat.add_zero, ← hi]; exact List.getElem?_concat_length⟩
        | succ k =>
          have := hlater k item hk hitem
          rwa [Nat.add_assoc, Nat.add_comm 1 k] at this
      by_cases hfull : buf.length ≥ writeBatchBytes
      · rw [if_pos hfull]
        refine (flushNodeWrites_always hbuf hlen (by rw [hi']; exact hq)).bind
          fun results₁ o h => ?_
        refine (@ih [] (i + 1) [] [] results₁ rfl rfl (h.1.trans hi') nofun).mono
          fun results' o' h' => ?_
        have hall : Wrote (pend' ++ items) (results ++ [result]) results' (o ++ o') :=
          h.2.append h'.2.1
        refine ⟨by omega, hwrote _ _ hall, hfailed results' hall.keeps h'.2.2⟩
      · rw [if_neg hfull]
        refine (ih hbuf hlen hi' hq).mono fun results' o h => ?_
        exact ⟨by omega, hwrote _ _ h.2.1, hfailed results' h.2.1.keeps h.2.2⟩
    have hlater : ∀ q ∈ queued, q < i + 1 := fun q hmem => Nat.lt_succ_of_lt (hq q hmem)
    have hload : (Prog.load (·.reader.streamTainted) : Thread Bool).Always handedBytes
        fun _ o => o = [] := .atomically fun _ s => handedBytes_self s
    refine hload.bind ?_
    rintro tainted o rfl
    cases tainted with
    | true => exact hcontinue pend buf queued _ hbuf hlen hlater (fun _ _ h => h.skip) fun _ =>
        ⟨_, rfl⟩
    | false =>
      have happend := appendValueMessage_eq buf (id, value)
      cases hmsg : setValueMessage id value.toNative with
      | error e =>
        rw [hmsg] at happend
        simp only [happend, Except.map]
        exact hcontinue pend buf queued _ hbuf hlen hlater (fun _ _ h => h.skip) fun _ => ⟨_, rfl⟩
      | ok bytes =>
        rw [hmsg] at happend
        have hbytes : itemBytes (id, value) = bytes := by simp [itemBytes, hmsg]
        simp only [happend, Except.map]
        refine hcontinue (pend ++ [(id, value)]) _ _ _ ?_ ?_ ?_ ?_ fun henc => ?_
        · rw [List.flatMap_append, ← hbuf, List.flatMap_singleton, hbytes]
        · simp [hlen]
        · intro q hmem
          rcases List.mem_append.mp hmem with hmem | hmem
          · exact hlater q hmem
          · exact (List.mem_singleton.mp hmem).trans_lt (Nat.lt_succ_self i)
        · intro results' o h
          have := h.later
          rwa [List.append_assoc] at this
        · simp [encodable, hmsg, Except.isOk, Except.toBool] at henc

/-! ### Entries -/

/-- What the entry writes. -/
def DumpEntry.item (entry : DumpEntry) : Int32 × NodeValue := (entry.id, entry.value)

/-- The message of the entry, if it has one. -/
def DumpEntry.message (entry : DumpEntry) : List UInt8 := itemBytes entry.item

/-- The entry can be encoded. -/
def DumpEntry.encodable (entry : DumpEntry) : Bool := Session.encodable entry.item

/-- The entry at this place is reported as failed. -/
def RestoreState.Fails (r : RestoreState) (j : ℕ) : Prop := Failed (r.results.map (·.2)) j

/-- What a flush does to a restore. -/
structure Flushed (r r' : RestoreState) (bytes : List UInt8) : Prop where
  /-- Nothing waits. -/
  batch : r'.batch = []
  /-- Whether the restore goes on is not decided here. -/
  selectorFailed : r'.selectorFailed = r.selectorFailed
  /-- No result comes or goes. -/
  length : r'.results.length = r.results.length
  /-- Only results of the batch change. -/
  others : ∀ j, j ∉ r.batch.map (·.1) → (r'.Fails j ↔ r.Fails j)
  /-- An entry that cannot be encoded has failed. -/
  unencodable : ∀ p ∈ r.batch, p.2.encodable = false → r'.Fails p.1
  /-- What was handed over are messages of the batch, in order. -/
  sent : ∃ sent : List DumpEntry, sent.Sublist (r.batch.map (·.2)) ∧
    bytes = sent.flatMap DumpEntry.message
  /-- If nothing failed, it is all of them. -/
  all : (∀ p ∈ r.batch, ¬ r'.Fails p.1) → bytes = (r.batch.map (·.2)).flatMap DumpEntry.message

theorem flushRestoreBatch_always {r : RestoreState} (hr : Restoring r) :
    (flushRestoreBatch call r).Always handedBytes (Flushed r) := by
  have hwrite : ∀ slot, (writeNodeValues call slot (r.batch.map fun p => p.2.item)).Always
      handedBytes _ := fun slot => @writeLoop_always call slot [] _ 0 [] [] [] rfl rfl rfl nofun
  refine (hwrite _).bind fun written bytes h => ?_
  obtain ⟨hlen, hwrote, hunenc⟩ := h
  rw [Nat.zero_add, List.length_map] at hlen
  have hslots : (r.batch.map (·.1)).length = written.length := by rw [hlen, List.length_map]
  -- A failure among what was written is a failure at the entry's place.
  have hplace : ∀ k p, r.batch[k]? = some p → Failed written k →
      Failed ((((r.batch.map (·.1)).zip written).foldl
        (fun results p => setResult results p.1 p.2) r.results).map (·.2)) p.1 := by
    intro k p hk hf
    rw [foldl_setResult_map]
    refine failed_flushed hr.nodup (by rw [List.length_map]; exact hr.inside) hslots
      (Or.inr ⟨k, ?_, hf⟩)
    simp [List.getD, hk]
  show Flushed r _ (bytes ++ [])
  rw [List.append_nil]
  refine ⟨rfl, rfl, ?_, fun j hj => ?_, fun p hp henc => ?_, ?_, fun hok => ?_⟩
  · exact length_foldl_setResult _ _
  · have hout : j ∉ ((r.batch.map (·.1)).zip written).map (·.1) := by
      rw [List.map_fst_zip hslots.le]
      exact hj
    simp only [RestoreState.Fails, Failed]
    rw [foldl_setResult_map, foldl_set_of_not_mem _ _ hout]
  · obtain ⟨k, hk⟩ := List.mem_iff_getElem?.mp hp
    have hf := hunenc k p.2.item (by rw [List.getElem?_map, hk]; rfl) henc
    rw [Nat.zero_add] at hf
    exact hplace k p hk hf
  · obtain ⟨sent, hsub, hbytes⟩ := hwrote.sent
    rw [List.nil_append] at hsub
    obtain ⟨ps, hps, rfl⟩ := List.sublist_map_iff.mp hsub
    refine ⟨ps.map (·.2), hps.map _, ?_⟩
    rw [hbytes, List.flatMap_map, List.flatMap_map]
    rfl
  · have hnone : ∀ j, ¬ Failed written j := by
      intro j hf
      have hj : j < r.batch.length := hlen ▸ hf.lt
      have hk := List.getElem?_eq_getElem hj
      exact hok _ (List.mem_of_getElem? hk) (hplace j _ hk hf)
    rw [hwrote.all hnone, List.nil_append, List.flatMap_map, List.flatMap_map]
    rfl

/-! ### A restore that goes on, and one that has stopped -/

variable {readOnly : String → Bool}

/-- No selector has failed to be written among the entries done so far. -/
structure Running (readOnly : String → Bool) (done : List DumpEntry) (r : RestoreState)
    (bytes : List UInt8) : Prop where
  /-- No selector has failed. -/
  going : r.selectorFailed = false
  /-- Every entry so far has a result. -/
  length : r.results.length = done.length
  /-- What waits is in order. -/
  restoring : Restoring r
  /-- What waits are writable entries that are no selectors. -/
  batch : ∀ p ∈ r.batch, done[p.1]? = some p.2 ∧ readOnly p.2.fullname = false ∧
    isSelector p.2.fullname = false
  /-- What waits has not failed. -/
  waiting : ∀ p ∈ r.batch, ¬ r.Fails p.1
  /-- The selectors so far were written. -/
  selectors : ∀ j e, done[j]? = some e → isSelector e.fullname = true →
    readOnly e.fullname = false →
    e.encodable = true ∧ ¬ r.Fails j
  /-- What is read-only has failed. -/
  skipped : ∀ j e, done[j]? = some e → readOnly e.fullname = true → r.Fails j
  /-- What cannot be encoded waits or has failed. -/
  unencodable : ∀ j e, done[j]? = some e → e.encodable = false → (j, e) ∈ r.batch ∨ r.Fails j
  /-- What was handed over are messages of entries, in order. -/
  sent : ∃ sent : List DumpEntry,
    (sent ++ r.batch.map (·.2)).Sublist (done.filter fun e => !readOnly e.fullname) ∧
      bytes = sent.flatMap DumpEntry.message
  /-- If nothing failed, it is all but those that wait. -/
  all : (∀ j, ¬ r.Fails j) →
    bytes ++ (r.batch.map (·.2)).flatMap DumpEntry.message = done.flatMap DumpEntry.message

/-- The selector `sel` after the entries `before` was attempted and failed. -/
structure Stopped (readOnly : String → Bool) (done : List DumpEntry) (r : RestoreState)
    (bytes : List UInt8) (before : List DumpEntry) (sel : DumpEntry) : Prop where
  /-- A selector has failed. -/
  stopped : r.selectorFailed = true
  /-- Every entry so far has a result. -/
  length : r.results.length = done.length
  /-- Nothing waits. -/
  batch : r.batch = []
  /-- It is among the entries so far. -/
  at_sel : ∃ after, done = before ++ sel :: after
  /-- It is a writable selector. -/
  selector : isSelector sel.fullname = true ∧ readOnly sel.fullname = false
  /-- The selectors before it were written. -/
  selectors : ∀ j e, before[j]? = some e → isSelector e.fullname = true →
    readOnly e.fullname = false → e.encodable = true ∧ ¬ r.Fails j
  /-- What is read-only has failed. -/
  skipped : ∀ j e, before[j]? = some e → readOnly e.fullname = true → r.Fails j
  /-- Everything from there on has failed. -/
  failed : ∀ j, before.length ≤ j → j < done.length → r.Fails j
  /-- What was handed over are messages of entries up to there. -/
  sent : ∃ sent : List DumpEntry,
    sent.Sublist ((before ++ [sel]).filter fun e => !readOnly e.fullname) ∧
      bytes = sent.flatMap DumpEntry.message

/-- An entry whose result is put down. -/
theorem fails_append {r : RestoreState} {name : String} {result : Result Unit} {j : ℕ}
    (hj : j < r.results.length) {batch : List (ℕ × DumpEntry)} {b : Bool} :
    RestoreState.Fails ⟨r.results ++ [(name, result)], batch, b⟩ j ↔ r.Fails j := by
  simp only [RestoreState.Fails, Failed, List.map_append]
  rw [List.getElem?_append_left (by rw [List.length_map]; exact hj)]

theorem fails_last {r : RestoreState} {name : String} {result : Result Unit}
    {batch : List (ℕ × DumpEntry)} {b : Bool} :
    RestoreState.Fails ⟨r.results ++ [(name, result)], batch, b⟩ r.results.length ↔
      ∃ e, result = .error e := by
  have hlast : ((r.results ++ [(name, result)]).map (·.2))[r.results.length]? = some result := by
    rw [List.map_append, List.getElem?_append_right (by simp)]
    simp
  simp only [RestoreState.Fails, Failed]
  rw [hlast]
  simp

theorem RestoreState.Fails.lt {r : RestoreState} {j : ℕ} (h : r.Fails j) :
    j < r.results.length := by
  have := Failed.lt h
  rwa [List.length_map] at this

/-- The places of a list with one more entry. -/
theorem getElem?_snoc {α : Type} {l : List α} {a b : α} {j : ℕ} (h : (l ++ [a])[j]? = some b) :
    l[j]? = some b ∨ (j = l.length ∧ b = a) := by
  rcases Nat.lt_or_ge j l.length with hj | hj
  · rw [List.getElem?_append_left hj] at h
    exact Or.inl h
  · rw [List.getElem?_append_right hj] at h
    obtain ⟨hlt, heq⟩ := List.getElem?_eq_some_iff.mp h
    simp only [List.length_singleton] at hlt
    exact Or.inr ⟨by omega, by simpa using heq.symm⟩

namespace Running

variable {done : List DumpEntry} {r : RestoreState} {bytes : List UInt8} {entry : DumpEntry}

/-- A read-only entry is skipped. -/
theorem skip (h : Running readOnly done r bytes) (hro : readOnly entry.fullname = true)
    (e : Error) :
    Running readOnly (done ++ [entry])
      { r with results := r.results ++ [(entry.fullname, .error e)] } bytes where
  going := h.going
  length := by simp [h.length]
  restoring := {
    nodup := h.restoring.nodup
    inside := h.restoring.inside_append _ }
  batch p hp := by
    obtain ⟨hdone, hrest⟩ := h.batch p hp
    exact ⟨getElem?_append hdone, hrest⟩
  waiting p hp :=
    (fails_append (h.restoring.inside _ (List.mem_map_of_mem hp))).not.mpr (h.waiting p hp)
  selectors j e hj hsel hrw := by
    rcases getElem?_snoc hj with hj | ⟨-, rfl⟩
    · have hlt := h.length ▸ (List.getElem?_eq_some_iff.mp hj).1
      exact ⟨(h.selectors j e hj hsel hrw).1,
        (fails_append hlt).not.mpr (h.selectors j e hj hsel hrw).2⟩
    · rw [hro] at hrw
      cases hrw
  skipped j e hj hro := by
    rcases getElem?_snoc hj with hj | ⟨rfl, rfl⟩
    · exact (fails_append (h.skipped j e hj hro).lt).mpr (h.skipped j e hj hro)
    · rw [← h.length]
      exact fails_last.mpr ⟨_, rfl⟩
  unencodable j e hj henc := by
    rcases getElem?_snoc hj with hj | ⟨rfl, rfl⟩
    · exact (h.unencodable j e hj henc).imp_right fun hf => (fails_append hf.lt).mpr hf
    · rw [← h.length]
      exact Or.inr (fails_last.mpr ⟨_, rfl⟩)
  sent := by
    obtain ⟨sent, hsub, hbytes⟩ := h.sent
    refine ⟨sent, ?_, hbytes⟩
    rw [List.filter_append]
    exact hsub.trans (List.sublist_append_left _ _)
  all hok := absurd (fails_last.mpr ⟨e, rfl⟩) (hok _)

/-- An entry that is no selector joins the batch. -/
theorem queue (h : Running readOnly done r bytes) (hrw : readOnly entry.fullname = false)
    (hsel : isSelector entry.fullname = false) :
    Running readOnly (done ++ [entry]) { r with
      results := r.results ++ [(entry.fullname, .ok ())]
      batch := r.batch ++ [(r.results.length, entry)] } bytes where
  going := h.going
  length := by simp [h.length]
  restoring := h.restoring.join entry
  batch p hp := by
    rcases List.mem_append.mp hp with hp | hp
    · obtain ⟨hdone, hrest⟩ := h.batch p hp
      exact ⟨getElem?_append hdone, hrest⟩
    · rw [List.mem_singleton.mp hp, h.length]
      exact ⟨List.getElem?_concat_length, hrw, hsel⟩
  waiting p hp := by
    rcases List.mem_append.mp hp with hp | hp
    · exact (fails_append (h.restoring.inside _ (List.mem_map_of_mem hp))).not.mpr (h.waiting p hp)
    · rw [List.mem_singleton.mp hp]
      exact fails_last.not.mpr nofun
  selectors j e hj hsel' hrw' := by
    rcases getElem?_snoc hj with hj | ⟨-, rfl⟩
    · have hlt := h.length ▸ (List.getElem?_eq_some_iff.mp hj).1
      have hold := h.selectors j e hj hsel' hrw'
      exact ⟨hold.1, (fails_append hlt).not.mpr hold.2⟩
    · rw [hsel] at hsel'
      cases hsel'
  skipped j e hj hro := by
    rcases getElem?_snoc hj with hj | ⟨-, rfl⟩
    · exact (fails_append (h.skipped j e hj hro).lt).mpr (h.skipped j e hj hro)
    · rw [hrw] at hro
      cases hro
  unencodable j e hj henc := by
    rcases getElem?_snoc hj with hj | ⟨rfl, rfl⟩
    · rcases h.unencodable j e hj henc with hmem | hf
      · exact Or.inl (List.mem_append_left _ hmem)
      · exact Or.inr ((fails_append hf.lt).mpr hf)
    · rw [← h.length]
      exact Or.inl (List.mem_append_right _ (List.mem_singleton.mpr rfl))
  sent := by
    obtain ⟨sent, hsub, hbytes⟩ := h.sent
    refine ⟨sent, ?_, hbytes⟩
    rw [List.map_append, ← List.append_assoc, List.filter_append, List.filter_singleton]
    simp only [hrw, Bool.not_false]
    exact hsub.append_right _
  all hok := by
    have hold := h.all fun j hj => hok j ((fails_append hj.lt).mpr hj)
    rw [List.map_append, List.flatMap_append, ← List.append_assoc, hold, List.flatMap_append]
    rfl

/-- The batch is flushed. -/
theorem flush {r' : RestoreState} {new : List UInt8} (h : Running readOnly done r bytes)
    (hf : Flushed r r' new) : Running readOnly done r' (bytes ++ new) where
  going := hf.selectorFailed.trans h.going
  length := hf.length.trans h.length
  restoring := by
    constructor
    · rw [hf.batch]
      exact List.nodup_nil
    · rw [hf.batch]
      exact nofun
  batch p hp := by
    rw [hf.batch] at hp
    cases hp
  waiting p hp := by
    rw [hf.batch] at hp
    cases hp
  selectors j e hj hsel hrw := by
    have hout : j ∉ r.batch.map (·.1) := fun hmem => by
      obtain ⟨p, hp, rfl⟩ := List.mem_map.mp hmem
      obtain ⟨hdone, -, hno⟩ := h.batch p hp
      rw [hj] at hdone
      cases hdone
      rw [hsel] at hno
      cases hno
    have hold := h.selectors j e hj hsel hrw
    exact ⟨hold.1, (hf.others j hout).not.mpr hold.2⟩
  skipped j e hj hro := by
    have hout : j ∉ r.batch.map (·.1) := fun hmem => by
      obtain ⟨p, hp, rfl⟩ := List.mem_map.mp hmem
      obtain ⟨hdone, hno, -⟩ := h.batch p hp
      rw [hj] at hdone
      cases hdone
      rw [hro] at hno
      cases hno
    exact (hf.others j hout).mpr (h.skipped j e hj hro)
  unencodable j e hj henc := by
    by_cases hmem : j ∈ r.batch.map (·.1)
    · obtain ⟨p, hp, rfl⟩ := List.mem_map.mp hmem
      have hdone := (h.batch p hp).1
      rw [hj] at hdone
      cases hdone
      exact Or.inr (hf.unencodable p hp henc)
    · rcases h.unencodable j e hj henc with hin | hfails
      · exact absurd (List.mem_map.mpr ⟨_, hin, rfl⟩) hmem
      · exact Or.inr ((hf.others j hmem).mpr hfails)
  sent := by
    obtain ⟨sent, hsub, hbytes⟩ := h.sent
    obtain ⟨sent', hsub', hnew⟩ := hf.sent
    refine ⟨sent ++ sent', ?_, ?_⟩
    · rw [hf.batch, List.map_nil, List.append_nil]
      exact (hsub'.append_left sent).trans hsub
    · rw [hbytes, hnew, List.flatMap_append]
  all hok := by
    rw [hf.batch, List.map_nil, List.flatMap_nil, List.append_nil, hf.all fun p _ => hok p.1]
    refine h.all fun j hfails => ?_
    by_cases hmem : j ∈ r.batch.map (·.1)
    · obtain ⟨p, hp, rfl⟩ := List.mem_map.mp hmem
      exact h.waiting p hp hfails
    · exact hok j ((hf.others j hmem).mpr hfails)

/-- A restore in which a selector has just been put down, on its own. -/
def selecting (r : RestoreState) (entry : DumpEntry) : RestoreState :=
  { r with
    results := r.results ++ [(entry.fullname, .ok ())]
    batch := r.batch ++ [(r.results.length, entry)] }

theorem selecting_fails {r' : RestoreState} {new : List UInt8} (hempty : r.batch = [])
    (hf : Flushed (selecting r entry) r' new) {j : ℕ} (hj : j < r.results.length) :
    r'.Fails j ↔ r.Fails j := by
  rw [hf.others j, selecting, fails_append hj]
  simp only [selecting, hempty, List.nil_append, List.map_cons, List.map_nil, List.mem_singleton]
  exact hj.ne

theorem selecting_sent {r' : RestoreState} {new : List UInt8} (h : Running readOnly done r bytes)
    (hempty : r.batch = []) (hrw : readOnly entry.fullname = false)
    (hf : Flushed (selecting r entry) r' new) :
    ∃ sent : List DumpEntry, sent.Sublist ((done ++ [entry]).filter fun e => !readOnly e.fullname) ∧
      bytes ++ new = sent.flatMap DumpEntry.message := by
  obtain ⟨sent, hsub, hbytes⟩ := h.sent
  obtain ⟨sent', hsub', hnew⟩ := hf.sent
  rw [hempty, List.map_nil, List.append_nil] at hsub
  have hone : (selecting r entry).batch.map (·.2) = [entry].filter fun e =>
      !readOnly e.fullname := by
    simp [selecting, hempty, hrw]
  refine ⟨sent ++ sent', ?_, by rw [hbytes, hnew, List.flatMap_append]⟩
  rw [List.filter_append]
  exact hsub.append (hone ▸ hsub')

/-- A selector that is written. -/
theorem select {r' : RestoreState} {new : List UInt8} (h : Running readOnly done r bytes)
    (hempty : r.batch = []) (hrw : readOnly entry.fullname = false)
    (hf : Flushed (selecting r entry) r' new) (hok : ¬ r'.Fails r.results.length) :
    Running readOnly (done ++ [entry]) { r' with selectorFailed := false } (bytes ++ new) where
  going := rfl
  length := by
    refine hf.length.trans ?_
    simp [selecting, h.length]
  restoring := by
    constructor
    · rw [hf.batch]
      exact List.nodup_nil
    · rw [hf.batch]
      exact nofun
  batch p hp := by
    rw [hf.batch] at hp
    cases hp
  waiting p hp := by
    rw [hf.batch] at hp
    cases hp
  selectors j e hj hsel' hrw' := by
    rcases getElem?_snoc hj with hj | ⟨rfl, rfl⟩
    · have hlt := h.length ▸ (List.getElem?_eq_some_iff.mp hj).1
      have hold := h.selectors j e hj hsel' hrw'
      exact ⟨hold.1, (selecting_fails hempty hf hlt).not.mpr hold.2⟩
    · rw [← h.length]
      refine ⟨?_, hok⟩
      by_contra henc
      exact hok (hf.unencodable (r.results.length, e)
        (List.mem_append_right _ (List.mem_singleton.mpr rfl))
        (Bool.not_eq_true _ ▸ henc))
  skipped j e hj hro := by
    rcases getElem?_snoc hj with hj | ⟨-, rfl⟩
    · have hold := h.skipped j e hj hro
      exact (selecting_fails hempty hf hold.lt).mpr hold
    · rw [hrw] at hro
      cases hro
  unencodable j e hj henc := by
    rcases getElem?_snoc hj with hj | ⟨rfl, rfl⟩
    · rcases h.unencodable j e hj henc with hmem | hfails
      · rw [hempty] at hmem
        cases hmem
      · exact Or.inr ((selecting_fails hempty hf hfails.lt).mpr hfails)
    · rw [← h.length]
      exact absurd (hf.unencodable (r.results.length, e)
        (List.mem_append_right _ (List.mem_singleton.mpr rfl)) henc) hok
  sent := by
    obtain ⟨sent, hsub, hbytes⟩ := selecting_sent h hempty hrw hf
    refine ⟨sent, ?_, hbytes⟩
    rw [hf.batch, List.map_nil, List.append_nil]
    exact hsub
  all hall := by
    have hnew : new = entry.message := by
      rw [hf.all fun p _ => hall p.1]
      simp [selecting, hempty]
    have hold := h.all fun j hj => hall j ((selecting_fails hempty hf hj.lt).mpr hj)
    rw [hempty, List.map_nil, List.flatMap_nil, List.append_nil] at hold
    rw [hf.batch, List.map_nil, List.flatMap_nil, List.append_nil, hold, hnew, List.flatMap_append]
    simp

/-- A selector that fails. -/
theorem stop {r' : RestoreState} {new : List UInt8} (h : Running readOnly done r bytes)
    (hempty : r.batch = []) (hrw : readOnly entry.fullname = false)
    (hsel : isSelector entry.fullname = true) (hf : Flushed (selecting r entry) r' new)
    (hfails : r'.Fails r.results.length) :
    Stopped readOnly (done ++ [entry]) { r' with selectorFailed := true } (bytes ++ new) done
      entry where
  stopped := rfl
  length := by
    refine hf.length.trans ?_
    simp [selecting, h.length]
  batch := hf.batch
  at_sel := ⟨[], rfl⟩
  selector := ⟨hsel, hrw⟩
  selectors j e hj hsel' hrw' := by
    have hlt := h.length ▸ (List.getElem?_eq_some_iff.mp hj).1
    have hold := h.selectors j e hj hsel' hrw'
    exact ⟨hold.1, (selecting_fails hempty hf hlt).not.mpr hold.2⟩
  skipped j e hj hro := by
    have hold := h.skipped j e hj hro
    exact (selecting_fails hempty hf hold.lt).mpr hold
  failed j hge hlt := by
    have hj : j = r.results.length := by
      rw [List.length_append, List.length_singleton] at hlt
      have := h.length
      omega
    exact hj ▸ hfails
  sent := selecting_sent h hempty hrw hf

end Running

/-- After a selector failed, entries are skipped. -/
theorem Stopped.skip {done before : List DumpEntry} {r : RestoreState} {bytes : List UInt8}
    {sel entry : DumpEntry} (h : Stopped readOnly done r bytes before sel) (e : Error) :
    Stopped readOnly (done ++ [entry])
      { r with results := r.results ++ [(entry.fullname, .error e)] } bytes before sel where
  stopped := h.stopped
  length := by simp [h.length]
  batch := h.batch
  at_sel := by
    obtain ⟨after, rfl⟩ := h.at_sel
    exact ⟨after ++ [entry], by simp⟩
  selector := h.selector
  selectors j e hj hsel hrw := by
    have hold := h.selectors j e hj hsel hrw
    have hlt : j < r.results.length := by
      obtain ⟨after, rfl⟩ := h.at_sel
      have := (List.getElem?_eq_some_iff.mp hj).1
      rw [h.length, List.length_append]
      omega
    exact ⟨hold.1, (fails_append hlt).not.mpr hold.2⟩
  skipped j e hj hro := (fails_append (h.skipped j e hj hro).lt).mpr (h.skipped j e hj hro)
  failed j hge hlt := by
    rw [List.length_append, List.length_singleton, ← h.length] at hlt
    rcases Nat.lt_or_ge j r.results.length with hj | hj
    · exact (fails_append hj).mpr (h.failed j hge (h.length ▸ hj))
    · have : j = r.results.length := by omega
      exact this ▸ fails_last.mpr ⟨e, rfl⟩
  sent := h.sent

/-- There is nothing left to flush. -/
theorem Stopped.flush {done before : List DumpEntry} {r r' : RestoreState} {bytes new : List UInt8}
    {sel : DumpEntry} (h : Stopped readOnly done r bytes before sel) (hf : Flushed r r' new) :
    Stopped readOnly done r' (bytes ++ new) before sel := by
  have hsame : ∀ j, r'.Fails j ↔ r.Fails j := fun j =>
    hf.others j (by rw [h.batch]; exact List.not_mem_nil)
  have hnew : new = [] := by
    obtain ⟨sent, hsub, rfl⟩ := hf.sent
    rw [h.batch] at hsub
    rw [List.eq_nil_of_sublist_nil hsub]
    rfl
  exact {
    stopped := hf.selectorFailed.trans h.stopped
    length := hf.length.trans h.length
    batch := hf.batch
    at_sel := h.at_sel
    selector := h.selector
    selectors := fun j e hj hsel hrw => by
      rw [hsame]
      exact h.selectors j e hj hsel hrw
    skipped := fun j e hj hro => (hsame j).mpr (h.skipped j e hj hro)
    failed := fun j hge hlt => (hsame j).mpr (h.failed j hge hlt)
    sent := by
      rw [hnew, List.append_nil]
      exact h.sent }

/-! ### The loop -/

/-- Where a restore is after some entries. -/
def Restored (readOnly : String → Bool) (done : List DumpEntry) (r : RestoreState)
    (bytes : List UInt8) : Prop :=
  Running readOnly done r bytes ∨ ∃ before sel, Stopped readOnly done r bytes before sel

theorem selectorFailed_iff {r : RestoreState} {j : ℕ} (hj : j < r.results.length) :
    (r.results[j]?.map (·.2)) ≠ some (.ok ()) ↔ r.Fails j := by
  have hget := List.getElem?_eq_getElem hj
  simp only [RestoreState.Fails, Failed, List.getElem?_map, hget, Option.map_some]
  cases r.results[j].2 with
  | ok u => simp
  | error e => simp

theorem restoreEntry_always {done : List DumpEntry} {r : RestoreState} {bytes : List UInt8}
    {entry : DumpEntry} (h : Restored readOnly done r bytes)
    (hfirst : isSelector entry.fullname = true → r.batch = []) :
    (restoreEntry call readOnly entry r).Always handedBytes fun r' new =>
      Restored readOnly (done ++ [entry]) r' (bytes ++ new) := by
  unfold restoreEntry
  rcases h with h | ⟨before, sel, h⟩
  · by_cases hro : readOnly entry.fullname = true
    · rw [if_pos (by rw [hro, Bool.or_true])]
      show Restored _ _ _ (bytes ++ [])
      rw [List.append_nil]
      exact Or.inl (h.skip hro _)
    have hrw : readOnly entry.fullname = false := Bool.not_eq_true _ ▸ hro
    rw [if_neg (by rw [h.going, hrw]; exact Bool.false_ne_true)]
    by_cases hsel : isSelector entry.fullname = true
    · simp only [hsel, if_true]
      refine (flushRestoreBatch_always (h.restoring.join entry)).bind fun r' new hf => ?_
      have hempty := hfirst hsel
      have hlt : r.results.length < r'.results.length := by
        rw [hf.length, List.length_append]
        exact Nat.lt_add_one _
      show Restored _ _ _ (bytes ++ (new ++ []))
      rw [List.append_nil]
      by_cases hfails : r'.Fails r.results.length
      · have hstop := h.stop hempty hrw hsel hf hfails
        rw [decide_eq_true ((selectorFailed_iff hlt).mpr hfails)]
        exact Or.inr ⟨_, _, hstop⟩
      · have hselect := h.select hempty hrw hf hfails
        rw [decide_eq_false ((selectorFailed_iff hlt).not.mpr hfails)]
        exact Or.inl hselect
    · simp only [hsel]
      show Restored _ _ _ (bytes ++ [])
      rw [List.append_nil]
      exact Or.inl (h.queue hrw (Bool.not_eq_true _ ▸ hsel))
  · rw [if_pos (by rw [h.stopped, Bool.true_or])]
    show Restored _ _ _ (bytes ++ [])
    rw [List.append_nil]
    exact Or.inr ⟨before, sel, h.skip _⟩

/-- Selectors come first. -/
def SelectorsFirst (entries : List DumpEntry) : Prop :=
  entries.Pairwise fun a b => isSelector b.fullname = true → isSelector a.fullname = true

theorem restoreLoop_always {entries done : List DumpEntry} {r : RestoreState} {bytes : List UInt8}
    (h : Restored readOnly done r bytes) (hfirst : SelectorsFirst (done ++ entries)) :
    (restoreLoop call readOnly entries r).Always handedBytes fun r' new =>
      r'.batch = [] ∧ Restored readOnly (done ++ entries) r' (bytes ++ new) := by
  induction entries generalizing done r bytes with
  | nil =>
    rw [List.append_nil]
    rcases h with h | ⟨before, sel, h⟩
    · exact (flushRestoreBatch_always h.restoring).mono fun r' new hf =>
        ⟨hf.batch, Or.inl (h.flush hf)⟩
    · have hr : Restoring r := by
        constructor
        · rw [h.batch]
          exact List.nodup_nil
        · rw [h.batch]
          exact nofun
      exact (flushRestoreBatch_always hr).mono fun r' new hf =>
        ⟨hf.batch, Or.inr ⟨before, sel, h.flush hf⟩⟩
  | cons entry entries ih =>
    have hsplit : done ++ entry :: entries = done ++ [entry] ++ entries := by simp
    -- Only entries that are no selectors wait, and no selector comes after them.
    have hbatch : isSelector entry.fullname = true → r.batch = [] := by
      intro hsel
      rcases h with h | ⟨before, sel, h⟩
      · refine List.eq_nil_iff_forall_not_mem.mpr fun p hp => ?_
        obtain ⟨hdone, -, hno⟩ := h.batch p hp
        have hpair := (List.pairwise_append.mp hfirst).2.2 p.2 (List.mem_of_getElem? hdone) entry
          (List.mem_cons_self ..) hsel
        rw [hno] at hpair
        cases hpair
      · exact h.batch
    refine (restoreEntry_always h hbatch).bind fun r' new h' => ?_
    refine (ih h' (hsplit ▸ hfirst)).mono fun r'' new' h'' => ?_
    rw [hsplit, ← List.append_assoc]
    exact h''

/-! ### The order -/

/-- A selector is known by its last segment. -/
theorem isSelector_eq (name : String) :
    isSelector name = decide ((name.toList.splitOnP (· == '/')).getLast? =
      some ['m', 'd', 'l']) := by
  have hof : ∀ cs : List Char, String.ofList cs = "mdl" ↔ cs = ['m', 'd', 'l'] := by
    intro cs
    rw [← String.toList_inj, String.toList_ofList]
    rfl
  rw [isSelector, Path.splitOn_slash, List.getLast?_map]
  cases (name.toList.splitOnP (· == '/')).getLast? with
  | none => rfl
  | some cs => simp [hof]

theorem keyLe_trans (a b c : Bool × ℕ) (hab : keyLe a b = true) (hbc : keyLe b c = true) :
    keyLe a c = true := by
  obtain ⟨a₁, a₂⟩ := a
  obtain ⟨b₁, b₂⟩ := b
  obtain ⟨c₁, c₂⟩ := c
  cases a₁ <;> cases b₁ <;> cases c₁ <;> simp_all [keyLe] <;> omega

theorem keyLe_total (a b : Bool × ℕ) : (keyLe a b || keyLe b a) = true := by
  obtain ⟨a₁, a₂⟩ := a
  obtain ⟨b₁, b₂⟩ := b
  cases a₁ <;> cases b₁ <;> simp [keyLe, Nat.le_total]

/-- The applied order ascends. -/
theorem restoreOrder_pairwise (entries : List DumpEntry) :
    (restoreOrder entries).Pairwise fun a b =>
    keyLe (restoreOrderKey a.fullname) (restoreOrderKey b.fullname) = true := by
  unfold restoreOrder
  apply List.pairwise_mergeSort
  · exact fun a b c hab hbc => keyLe_trans _ _ _ hab hbc
  · exact fun a b => keyLe_total _ _

theorem restoreOrder_selectorsFirst (entries : List DumpEntry) :
    SelectorsFirst (restoreOrder entries) := by
  refine (restoreOrder_pairwise entries).imp fun {a b} hle hsel => ?_
  by_contra ha
  simp only [restoreOrderKey, hsel, ha] at hle
  simp [keyLe] at hle

/-- Every execution of a restore. -/
theorem restore_always (t : ℕ) (entries : List DumpEntry) :
    (restore t readOnly entries).Always handedBytes fun results bytes => ∃ r : RestoreState,
      r.results = results ∧ r.batch = [] ∧ Restored readOnly (restoreOrder entries) r bytes := by
  have hbegin : (beginBulk t).Always handedBytes fun _ o => o = [] :=
    .atomically fun _ s => handedBytes_record s t _
  refine hbegin.bind ?_
  rintro call o rfl
  have hstart : Running readOnly [] ⟨[], [], false⟩ [] := {
    going := rfl
    length := rfl
    restoring := ⟨List.nodup_nil, nofun⟩
    batch := nofun
    waiting := nofun
    selectors := nofun
    skipped := nofun
    unencodable := nofun
    sent := ⟨[], List.Sublist.refl _, rfl⟩
    all := fun _ => rfl }
  refine (restoreLoop_always (Or.inl hstart) (restoreOrder_selectorsFirst entries)).bind ?_
  rintro r bytes ⟨hbatch, hr⟩
  have hfinish : (finishBulk call (r.results.map (·.2))).Always handedBytes fun _ o => o = [] :=
    .atomically fun _ s => handedBytes_record s _ _
  refine hfinish.bind ?_
  rintro _ o rfl
  refine ⟨r, rfl, hbatch, ?_⟩
  rw [List.append_nil, List.append_nil]
  exact hr

end Session

end LibWing
