import LibWing.Session.Outline

/-!
# Outlines of the bulk writes

* `Failed` : an item whose result is an error.  A flush that does not write fails its items, and no
  later step of the call turns such an item into a success;
* `InBulk` : what a bulk call knows between its sections: when it began, and that the items of its
  unwritten batches are accounted for;
* `setNodes_outline`, `restore_outline` : the outlines, from `Resting` to `Resting`;
* `run_inv` : with the outlines of all calls, every run keeps the invariant.
-/

namespace LibWing

open Interleave

namespace Session

/-! ### Failed items -/

/-- The result at a place is an error. -/
def Failed (results : List (Result Unit)) (j : ℕ) : Prop := ∃ e, results[j]? = some (.error e)

theorem Failed.lt {results : List (Result Unit)} {j : ℕ} (h : Failed results j) :
    j < results.length := by
  obtain ⟨e, he⟩ := h
  exact (List.getElem?_eq_some_iff.mp he).1

theorem Failed.append {results : List (Result Unit)} {j : ℕ} (h : Failed results j)
    (new : List (Result Unit)) : Failed (results ++ new) j := by
  obtain ⟨e, he⟩ := h
  refine ⟨e, ?_⟩
  rw [List.getElem?_append_left (Failed.lt ⟨e, he⟩)]
  exact he

theorem Failed.set {results : List (Result Unit)} {j : ℕ} (h : Failed results j) (i : ℕ)
    (e : Error) : Failed (results.set i (.error e)) j := by
  by_cases hij : i = j
  · subst hij
    exact ⟨e, List.getElem?_set_self h.lt⟩
  · obtain ⟨e', he⟩ := h
    exact ⟨e', by rw [List.getElem?_set_ne hij, he]⟩

variable {queued : List ℕ} {e : Error} {results : List (Result Unit)} {j : ℕ}

@[simp] theorem failAll_length (queued : List ℕ) (e : Error) (results : List (Result Unit)) :
    (failAll queued e results).length = results.length := by
  unfold failAll
  induction queued generalizing results with
  | nil => rfl
  | cons i queued ih => rw [List.foldl_cons, ih, List.length_set]

/-- Failing a batch leaves failures alone. -/
theorem Failed.failAll (h : Failed results j) : Failed (failAll queued e results) j := by
  unfold Session.failAll
  induction queued generalizing results with
  | nil => exact h
  | cons i queued ih => exact ih (h.set i e)

/-- Failing a batch fails its items. -/
theorem failed_failAll (hj : j ∈ queued) (hlt : j < results.length) :
    Failed (failAll queued e results) j := by
  unfold Session.failAll
  induction queued generalizing results with
  | nil => cases hj
  | cons i queued ih =>
    rcases List.mem_cons.mp hj with rfl | hj
    · have hset : Failed (results.set j (.error e)) j := ⟨e, List.getElem?_set_self hlt⟩
      exact hset.failAll
    · exact ih hj (by rw [List.length_set]; exact hlt)

/-! ### Between the sections of a bulk call -/

/-- What a bulk call knows between its sections.  The items of its unwritten batches satisfy `F`. -/
structure InBulk (call : BulkCall) (F : ℕ → Prop) (s : Shared) : Prop where
  /-- The thread holds no gate. -/
  resting : Resting call.thread s
  /-- The log says when the call began. -/
  began : ∃ k, s.log[call.since]? = some ⟨call.thread, .bulkBegan call.generation k⟩
  /-- It has not returned. -/
  unfinished : ∀ results, ⟨call.thread, .bulkReturned call.since results⟩ ∉ s.log
  /-- For each item that it has given up, `F` holds. -/
  unwritten : ∀ slots, ⟨call.thread, .unwritten call.since slots⟩ ∈ s.log → ∀ j ∈ slots, F j

variable {call : BulkCall} {F F' D : ℕ → Prop} {s s' : Shared} {slot : ℕ → ℕ}

theorem stable_inBulk : Stable (Rely call.thread) (InBulk call F) := by
  intro s s' h hb
  obtain ⟨k, hk⟩ := hb.began
  exact {
    resting := stable_resting s s' h hb.resting
    began := ⟨k, h.stands hk⟩
    unfinished := fun results hmem => hb.unfinished results (h.own.mp hmem)
    unwritten := fun slots hmem => hb.unwritten slots (h.own.mp hmem) }

theorem InBulk.mono (h : InBulk call F s) (hF : ∀ j, F j → F' j) : InBulk call F' s :=
  { h with unwritten := fun slots hmem j hj => hF j (h.unwritten slots hmem j hj) }

/-- A bulk call puts something down. -/
theorem InBulk.record (h : InBulk call F s) (hF : ∀ j, F j → F' j) {e : Happening}
    (hreturned : ∀ results, e ≠ .bulkReturned call.since results)
    (hunwritten : ∀ slots, e = .unwritten call.since slots → ∀ j ∈ slots, F' j) :
    InBulk call F' (s.record call.thread e) where
  resting := h.resting
  began := by
    obtain ⟨k, hk⟩ := h.began
    exact ⟨k, getElem?_append hk⟩
  unfinished := by
    intro results hmem
    rcases List.mem_append.mp hmem with hmem | hmem
    · exact h.unfinished results hmem
    · exact hreturned results (congrArg Event.happening (List.mem_singleton.mp hmem)).symm
  unwritten := by
    intro slots hmem j hj
    rcases List.mem_append.mp hmem with hmem | hmem
    · exact hF j (h.unwritten slots hmem j hj)
    · have heq := congrArg Event.happening (List.mem_singleton.mp hmem)
      exact hunwritten slots heq.symm j hj

/-- The items that are accounted for inside a loop: those of earlier loops, and those that have
failed in this one. -/
def Accounted (D : ℕ → Prop) (slot : ℕ → ℕ) (results : List (Result Unit)) (j : ℕ) : Prop :=
  D j ∨ ∃ i, slot i = j ∧ Failed results i

theorem Accounted.mono {results' : List (Result Unit)} (h : Accounted D slot results j)
    (hr : ∀ i, Failed results i → Failed results' i) : Accounted D slot results' j := by
  rcases h with h | ⟨i, hi, hf⟩
  · exact Or.inl h
  · exact Or.inr ⟨i, hi, hr i hf⟩

theorem InBulk.unwrite (h : InBulk call (Accounted D slot results) s) (e : Error)
    (hq : ∀ i ∈ queued, i < results.length) :
    InBulk call (Accounted D slot (failAll queued e results))
      (s.record call.thread (.unwritten call.since (queued.map slot))) := by
  refine h.record (fun j hj => hj.mono fun i hf => hf.failAll) nofun ?_
  rintro slots ⟨⟩ j hj
  obtain ⟨i, hi, rfl⟩ := List.mem_map.mp hj
  exact Or.inr ⟨i, rfl, failed_failAll hi (hq i hi)⟩

theorem InBulk.unwritten_ok (h : InBulk call F s) (slots : List ℕ) :
    EventOk s.log call.thread (.unwritten call.since slots) := by
  obtain ⟨k, hk⟩ := h.began
  exact ⟨⟨call.generation, k, hk⟩, h.unfinished⟩

theorem InBulk.handed_ok (h : InBulk call F s) (hinv : Inv s)
    (htaint : s.reader.streamTainted = false) (hrec : s.reconnecting = false)
    (hgen : s.sessionGeneration = call.generation) (bytes : List UInt8) :
    EventOk s.log call.thread (.handed call.since s.installed s.reconnecting
      s.reader.streamTainted bytes) := by
  obtain ⟨k, hk⟩ := h.began
  refine ⟨hinv.installed, hrec, htaint, call.generation, ?_⟩
  rw [← hinv.home hk hrec hgen]
  exact hk

theorem flushNodeWrites_outline (buf : List UInt8) (hq : ∀ i ∈ queued, i < results.length) :
    ThreadOutline call.thread
      (fun results' s => results'.length = results.length ∧
        InBulk call (Accounted D slot results') s)
      (flushNodeWrites call slot buf queued results)
      (InBulk call (Accounted D slot results)) := by
  have hpost : ∀ results' : List (Result Unit), Stable (Rely call.thread) fun s =>
      results'.length = results.length ∧ InBulk call (Accounted D slot results') s :=
    fun _ s s' hr h => ⟨h.1, stable_inBulk s s' hr h.2⟩
  by_cases hbuf : buf = []
  · rw [flushNodeWrites, if_pos hbuf]
    exact .pure stable_inBulk fun s h => ⟨rfl, h⟩
  rw [flushNodeWrites, if_neg hbuf]
  refine .atomically stable_inBulk hpost fun env s hinv h => ?_
  -- A flush that does not write: the items of the batch fail.
  have hfail : ∀ e, Guar call.thread s
        (s.record call.thread (.unwritten call.since (queued.map slot))) ∧
      (failAll queued e results).length = results.length ∧
      InBulk call (Accounted D slot (failAll queued e results))
        (s.record call.thread (.unwritten call.since (queued.map slot))) := fun e =>
    ⟨Guar.of_record (hinv.record rfl (h.unwritten_ok _)) rfl rfl, failAll_length _ _ _,
      h.unwrite e hq⟩
  by_cases htaint : s.reader.streamTainted = true
  · simp only [if_pos htaint]
    exact hfail .connectionError
  by_cases hsession : (s.reconnecting || s.sessionGeneration ≠ call.generation) = true
  · simp only [if_neg htaint, if_pos hsession]
    exact hfail .reconnecting
  simp only [if_neg htaint, if_neg hsession]
  obtain ⟨hrec, hgen⟩ : s.reconnecting = false ∧ s.sessionGeneration = call.generation := by
    simpa using hsession
  have hok := h.handed_ok hinv (Bool.not_eq_true _ ▸ htaint) hrec hgen buf
  cases env.write with
  | ok u =>
    have hwritten : InBulk call (Accounted D slot results) (s.write buf) := { h with }
    have hhanded : InBulk call (Accounted D slot results) ((s.write buf).record call.thread
        (.handed call.since s.installed s.reconnecting s.reader.streamTainted buf)) :=
      hwritten.record (fun _ hj => hj) nofun nofun
    exact ⟨Guar.of_record ((hinv.write buf).record rfl hok) rfl rfl, rfl, hhanded⟩
  | error kind =>
    have hhanded : InBulk call (Accounted D slot results) (s.record call.thread
        (.handed call.since s.installed s.reconnecting s.reader.streamTainted buf)) :=
      h.record (fun _ hj => hj) nofun nofun
    have hinv' := (hinv.record rfl hok).record rfl (hhanded.unwritten_ok (queued.map slot))
    refine ⟨⟨hinv', ?_⟩, failAll_length _ _ _, hhanded.unwrite _ hq⟩
    have hquiet : Quiet call.thread s ((s.record call.thread (.handed call.since s.installed
        s.reconnecting s.reader.streamTainted buf)).record call.thread
          (.unwritten call.since (queued.map slot))) := quiet_of_control rfl
    refine hquiet.rely (List.append_assoc _ _ _) fun e he => ?_
    rcases List.mem_append.mp he with he | he
    · exact own_singleton e he
    · exact own_singleton e he

theorem writeLoop_outline (items : List (Int32 × NodeValue)) (i : ℕ) (buf : List UInt8)
    (queued : List ℕ) (results : List (Result Unit)) (hlen : results.length = i)
    (hq : ∀ q ∈ queued, q < i) :
    ThreadOutline call.thread
      (fun results' s => results'.length = i + items.length ∧
        InBulk call (Accounted D slot results') s)
      (writeLoop call slot items i buf queued results)
      (InBulk call (Accounted D slot results)) := by
  induction items generalizing i buf queued results with
  | nil =>
    subst hlen
    exact flushNodeWrites_outline buf hq
  | cons item items ih =>
    obtain ⟨id, value⟩ := item
    have hcount : i + (items.length + 1) = i + 1 + items.length := by omega
    rw [List.length_cons, hcount]
    -- However the item fared, the loop goes on with its result at the end.
    have hcontinue : ∀ (buf : List UInt8) (queued : List ℕ) (result : Result Unit),
        (∀ q ∈ queued, q < i + 1) → ThreadOutline call.thread
          (fun results' s => results'.length = i + 1 + items.length ∧
            InBulk call (Accounted D slot results') s)
          (if buf.length ≥ writeBatchBytes then do
            let results ← flushNodeWrites call slot buf queued (results ++ [result])
            writeLoop call slot items (i + 1) [] [] results
          else writeLoop call slot items (i + 1) buf queued (results ++ [result]))
          (InBulk call (Accounted D slot results)) := by
      intro buf queued result hq
      have hlen' : (results ++ [result]).length = i + 1 := by
        rw [List.length_append, hlen, List.length_singleton]
      refine .mono ?_ stable_inBulk fun s h => h.mono fun j hj => hj.mono fun _ hf =>
        hf.append [result]
      by_cases hfull : buf.length ≥ writeBatchBytes
      · rw [if_pos hfull]
        refine .bind (flushNodeWrites_outline buf (by rw [hlen']; exact hq)) fun results' => ?_
        exact .of_fact fun hlen'' => ih (i + 1) [] [] results' (hlen''.trans hlen') nofun
      · rw [if_neg hfull]
        exact ih (i + 1) buf queued _ hlen' hq
    have hlater : ∀ q ∈ queued, q < i + 1 := fun q hmem => Nat.lt_succ_of_lt (hq q hmem)
    refine .bind (load_outline (Q := fun _ => InBulk call (Accounted D slot results)) stable_inBulk
      (fun _ => stable_inBulk) fun _ _ h => h) fun tainted => ?_
    cases tainted with
    | true => exact hcontinue buf queued _ hlater
    | false =>
      cases happend : appendValueMessage buf id value.toNative with
      | error e => exact hcontinue buf queued _ hlater
      | ok buf' =>
        refine hcontinue buf' (queued ++ [i]) _ fun q hmem => ?_
        rcases List.mem_append.mp hmem with hmem | hmem
        · exact hlater q hmem
        · exact (List.mem_singleton.mp hmem).trans_lt (Nat.lt_succ_self i)

theorem writeNodeValues_outline (items : List (Int32 × NodeValue)) :
    ThreadOutline call.thread
      (fun results s => results.length = items.length ∧ InBulk call (Accounted D slot results) s)
      (writeNodeValues call slot items) (InBulk call D) := by
  have hloop : ThreadOutline call.thread
      (fun results s => results.length = 0 + items.length ∧
        InBulk call (Accounted D slot results) s)
      (writeNodeValues call slot items) (InBulk call (Accounted D slot [])) :=
    writeLoop_outline items 0 [] [] [] rfl nofun
  rw [Nat.zero_add] at hloop
  exact .mono hloop stable_inBulk fun s h => h.mono fun j hj => Or.inl hj

theorem beginBulk_outline {t : ℕ} :
    ThreadOutline t (fun call s => call.thread = t ∧ InBulk call (fun _ => False) s) (beginBulk t)
      (Resting t) := by
  refine .atomically stable_resting (fun call => ?_) fun _ s hinv hrest => ?_
  · rintro s s' h ⟨rfl, hb⟩
    exact ⟨rfl, stable_inBulk s s' h hb⟩
  refine ⟨Guar.of_record hinv.bulkBegan rfl rfl, rfl, ?_⟩
  exact {
    resting := hrest
    began := ⟨s.installed, List.getElem?_concat_length⟩
    unfinished := by
      intro results hmem
      rcases List.mem_append.mp hmem with hmem | hmem
      · exact Nat.lt_irrefl _ (hinv.log.bulkReturned_since hmem)
      · cases List.mem_singleton.mp hmem
    unwritten := by
      intro slots hmem
      rcases List.mem_append.mp hmem with hmem | hmem
      · exact absurd (hinv.log.unwritten_since hmem) (Nat.lt_irrefl _)
      · cases List.mem_singleton.mp hmem }

theorem finishBulk_outline :
    ThreadOutline call.thread (fun _ => Resting call.thread) (finishBulk call results)
      (InBulk call (Failed results)) := by
  refine .atomically stable_inBulk (fun _ => stable_resting) fun _ s hinv h => ?_
  obtain ⟨k, hk⟩ := h.began
  have hevent : EventOk s.log call.thread (.bulkReturned call.since results) :=
    ⟨⟨call.generation, k, hk⟩, h.unwritten⟩
  exact ⟨Guar.of_record (hinv.record rfl hevent) rfl rfl, h.resting⟩

theorem setNodes_outline {t : ℕ} (values : List (Int32 × NodeValue)) :
    ThreadOutline t (fun _ => Resting t) (setNodes t values) (Resting t) := by
  refine .bind beginBulk_outline fun call => .of_fact ?_
  rintro rfl
  refine .bind (writeNodeValues_outline values) fun results => ?_
  refine .bind (.mono finishBulk_outline ?_ ?_) fun _ => pure_outline _
  · exact fun s s' h hs => ⟨hs.1, stable_inBulk s s' h hs.2⟩
  · rintro s ⟨-, h⟩
    refine h.mono fun j hj => ?_
    rcases hj with hno | ⟨i, rfl, hf⟩
    · exact hno.elim
    · exact hf

/-! ### Restoring -/

theorem setResult_map (rs : List (String × Result Unit)) (slot : ℕ) (result : Result Unit) :
    (setResult rs slot result).map (·.2) = (rs.map (·.2)).set slot result := by
  apply List.ext_getElem?
  intro j
  rw [List.getElem?_map, setResult, List.getElem?_set, List.getElem?_modify, List.length_map,
    List.getElem?_map]
  by_cases hj : slot = j
  · subst hj
    by_cases hlt : slot < rs.length
    · simp [hlt]
    · simp [hlt]
  · simp [hj]

/-- The results of a flush are put in their places. -/
theorem foldl_setResult_map (ps : List (ℕ × Result Unit)) (rs : List (String × Result Unit)) :
    (ps.foldl (fun rs p => setResult rs p.1 p.2) rs).map (·.2) =
      ps.foldl (fun rs p => rs.set p.1 p.2) (rs.map (·.2)) := by
  induction ps generalizing rs with
  | nil => rfl
  | cons p ps ih => rw [List.foldl_cons, ih, setResult_map, List.foldl_cons]

theorem foldl_set_length {α : Type} (ps : List (ℕ × α)) (rs : List α) :
    (ps.foldl (fun rs p => rs.set p.1 p.2) rs).length = rs.length := by
  induction ps generalizing rs with
  | nil => rfl
  | cons p ps ih => rw [List.foldl_cons, ih, List.length_set]

theorem length_foldl_setResult (ps : List (ℕ × Result Unit)) (rs : List (String × Result Unit)) :
    (ps.foldl (fun rs p => setResult rs p.1 p.2) rs).length = rs.length := by
  have hmap := congrArg List.length (foldl_setResult_map ps rs)
  rwa [List.length_map, foldl_set_length, List.length_map] at hmap

/-- What has no place among them stays as it is, … -/
theorem foldl_set_of_not_mem {α : Type} (ps : List (ℕ × α)) (rs : List α) {j : ℕ}
    (hj : j ∉ ps.map (·.1)) : (ps.foldl (fun rs p => rs.set p.1 p.2) rs)[j]? = rs[j]? := by
  induction ps generalizing rs with
  | nil => rfl
  | cons p ps ih =>
    rw [List.map_cons, List.mem_cons, not_or] at hj
    rw [List.foldl_cons, ih _ hj.2, List.getElem?_set_ne (Ne.symm hj.1)]

/-- … and what has one is there afterwards. -/
theorem foldl_set_of_mem {α : Type} (ps : List (ℕ × α)) (rs : List α)
    (hnodup : (ps.map (·.1)).Nodup)
    {j : ℕ} {a : α} (hmem : (j, a) ∈ ps) (hlt : j < rs.length) :
    (ps.foldl (fun rs p => rs.set p.1 p.2) rs)[j]? = some a := by
  induction ps generalizing rs with
  | nil => cases hmem
  | cons p ps ih =>
    rw [List.map_cons, List.nodup_cons] at hnodup
    rw [List.foldl_cons]
    rcases List.mem_cons.mp hmem with rfl | hmem
    · rw [foldl_set_of_not_mem ps _ hnodup.1, List.getElem?_set_self hlt]
    · exact ih _ hnodup.2 hmem (by rw [List.length_set]; exact hlt)

/-- After a flush, what had failed before and was not part of it has still failed, and so has what
failed in it. -/
theorem failed_flushed {slots : List ℕ} {written : List (Result Unit)} (hnodup : slots.Nodup)
    (hinside : ∀ j ∈ slots, j < results.length) (hlen : slots.length = written.length)
    (hj : (Failed results j ∧ j ∉ slots) ∨ ∃ i, slots.getD i 0 = j ∧ Failed written i) :
    Failed ((slots.zip written).foldl (fun rs p => rs.set p.1 p.2) results) j := by
  have hslots : (slots.zip written).map (·.1) = slots := List.map_fst_zip hlen.le
  rcases hj with ⟨⟨e, he⟩, hout⟩ | ⟨i, rfl, e, he⟩
  · refine ⟨e, ?_⟩
    rw [foldl_set_of_not_mem _ _ (by rw [hslots]; exact hout)]
    exact he
  · have hi : i < slots.length := hlen ▸ Failed.lt ⟨e, he⟩
    have hget : slots[i]? = some (slots.getD i 0) := by
      rw [List.getD_eq_getElem _ _ hi]
      exact List.getElem?_eq_getElem hi
    have hmem : (slots.getD i 0, (.error e : Result Unit)) ∈ slots.zip written :=
      List.mem_iff_getElem?.mpr ⟨i, List.getElem?_zip_eq_some.mpr ⟨hget, he⟩⟩
    refine ⟨e, foldl_set_of_mem _ _ (by rw [hslots]; exact hnodup) hmem ?_⟩
    exact hinside _ (List.mem_of_getElem? hget)

/-- The entries that wait for a flush have places of their own. -/
structure Restoring (r : RestoreState) : Prop where
  /-- No entry waits twice. -/
  nodup : (r.batch.map (·.1)).Nodup
  /-- Each has a result already. -/
  inside : ∀ j ∈ r.batch.map (·.1), j < r.results.length

/-- A result is put down. -/
theorem Restoring.inside_append {r : RestoreState} (hr : Restoring r)
    (result : String × Result Unit) :
    ∀ j ∈ r.batch.map (·.1), j < (r.results ++ [result]).length := by
  intro j hj
  rw [List.length_append]
  exact Nat.lt_add_right _ (hr.inside j hj)

/-- An entry joins the batch, at a place of its own. -/
theorem Restoring.join {r : RestoreState} (hr : Restoring r) (entry : DumpEntry) :
    Restoring { r with
      results := r.results ++ [(entry.fullname, .ok ())]
      batch := r.batch ++ [(r.results.length, entry)] } := by
  constructor
  · rw [List.map_append, List.nodup_append]
    refine ⟨hr.nodup, List.nodup_singleton _, fun j hj j' hj' => ?_⟩
    rw [List.mem_singleton.mp hj']
    exact (hr.inside j hj).ne
  · intro j hj
    rw [List.map_append] at hj
    rcases List.mem_append.mp hj with hj | hj
    · exact hr.inside_append _ j hj
    · rw [List.mem_singleton.mp hj, List.length_append]
      exact Nat.lt_add_one _

/-- An entry that has failed and does not wait for a flush. -/
def Settled (r : RestoreState) (j : ℕ) : Prop :=
  Failed (r.results.map (·.2)) j ∧ j ∉ r.batch.map (·.1)

theorem flushRestoreBatch_outline {r : RestoreState} (hr : Restoring r) :
    ThreadOutline call.thread (fun r' s => Restoring r' ∧ InBulk call (Settled r') s)
      (flushRestoreBatch call r) (InBulk call (Settled r)) := by
  refine .bind (writeNodeValues_outline _) fun written => .of_fact fun hlen =>
    .pure stable_inBulk fun s h => ⟨⟨List.nodup_nil, nofun⟩,
      h.mono fun j hj => ⟨?_, List.not_mem_nil⟩⟩
  rw [foldl_setResult_map]
  refine failed_flushed hr.nodup ?_ ?_ hj
  · rw [List.length_map]
    exact hr.inside
  · rw [hlen, List.length_map, List.length_map]

theorem restoreEntry_outline (readOnly : String → Bool) (entry : DumpEntry) {r : RestoreState}
    (hr : Restoring r) :
    ThreadOutline call.thread (fun r' s => Restoring r' ∧ InBulk call (Settled r') s)
      (restoreEntry call readOnly entry r) (InBulk call (Settled r)) := by
  have hlater : ∀ {result : Result Unit} {j : ℕ}, Failed (r.results.map (·.2)) j →
      Failed ((r.results ++ [(entry.fullname, result)]).map (·.2)) j := by
    intro result j hf
    rw [List.map_append]
    exact hf.append _
  unfold restoreEntry
  by_cases hskip : (r.selectorFailed || readOnly entry.fullname) = true
  · simp only [hskip, if_true]
    exact .pure stable_inBulk fun s h =>
      ⟨⟨hr.nodup, hr.inside_append _⟩, h.mono fun j hj => ⟨hlater hj.1, hj.2⟩⟩
  simp only [hskip]
  have hjoined := hr.join entry
  have hsettled : ∀ s, InBulk call (Settled r) s → InBulk call (Settled { r with
      results := r.results ++ [(entry.fullname, .ok ())]
      batch := r.batch ++ [(r.results.length, entry)] }) s := by
    intro s h
    refine h.mono fun j hj => ⟨hlater hj.1, ?_⟩
    rw [List.map_append, List.mem_append, not_or]
    refine ⟨hj.2, fun hmem => ?_⟩
    have hlt := hj.1.lt
    rw [List.mem_singleton.mp hmem, List.length_map] at hlt
    exact Nat.lt_irrefl _ hlt
  by_cases hsel : isSelector entry.fullname = true
  · simp only [hsel, if_true]
    refine .bind (.mono (flushRestoreBatch_outline hjoined) stable_inBulk hsettled) fun r' => ?_
    refine .of_fact fun hr' => .pure stable_inBulk fun s h => ⟨⟨hr'.nodup, hr'.inside⟩, ?_⟩
    exact h.mono fun j hj => hj
  · simp only [hsel]
    exact .pure stable_inBulk fun s h => ⟨hjoined, hsettled s h⟩

theorem restoreLoop_outline (readOnly : String → Bool) (entries : List DumpEntry) {r : RestoreState}
    (hr : Restoring r) :
    ThreadOutline call.thread (fun r' s => Restoring r' ∧ InBulk call (Settled r') s)
      (restoreLoop call readOnly entries r) (InBulk call (Settled r)) := by
  induction entries generalizing r with
  | nil => exact flushRestoreBatch_outline hr
  | cons entry entries ih =>
    exact .bind (restoreEntry_outline readOnly entry hr) fun r' => .of_fact fun hr' => ih hr'

theorem restore_outline {t : ℕ} (readOnly : String → Bool) (entries : List DumpEntry) :
    ThreadOutline t (fun _ => Resting t) (restore t readOnly entries) (Resting t) := by
  refine .bind beginBulk_outline fun call => .of_fact ?_
  rintro rfl
  have hstart : Restoring ⟨[], [], false⟩ := ⟨List.nodup_nil, nofun⟩
  refine .bind (.mono (restoreLoop_outline readOnly (restoreOrder entries) hstart) stable_inBulk
    fun s h => h.mono fun j hj => hj.elim) fun r => ?_
  refine .of_fact fun _ => .bind (.mono finishBulk_outline stable_inBulk ?_) fun _ => pure_outline _
  exact fun s h => h.mono fun j hj => hj.1

/-! ### Runs -/

theorem program_outline (cfg : Config) (t : ℕ) (op : Op) :
    ThreadOutline t (fun _ => Resting t) (program cfg t op) (Resting t) := by
  cases op with
  | reconnect policy => exact .bind (reconnect_outline _ policy) fun _ => pure_outline _
  | reader call => exact .bind (readerCall_outline call) fun _ => pure_outline _
  | keepAlive => exact .bind keepAlive_outline fun _ => pure_outline _
  | requestMeter meters => exact .bind (requestMeter_outline meters) fun _ => pure_outline _
  | keepAliveMeters => exact .bind keepAliveMeters_outline fun _ => pure_outline _
  | setNodes values => exact .bind (setNodes_outline values) fun _ => pure_outline _
  | restore entries => exact .bind (restore_outline _ entries) fun _ => pure_outline _

/-- **Every run keeps the invariant.** -/
theorem run_inv {cfg : Config} {now : Time} {rsock : List Poll} {moves : List (Move Env Op)}
    {sys : System Shared Env} (hrun : run cfg now rsock moves = some sys) : Inv sys.shared := by
  have hstart : System.Outlined Inv Rely Guar Resting
      (System.idle (.new now rsock) : System Shared Env) :=
    System.outlined_idle (fun _ => stable_resting) fun _ => ⟨nofun, nofun⟩
  have hsound := System.run_sound (fun _ _ _ _ hguar => hguar.1)
    (fun t t' _ _ hne _ hguar => hguar.2 t' hne.symm) (program_outline cfg) moves hrun
    (inv_new now rsock) hstart
  exact hsound.1

end Session

end LibWing
