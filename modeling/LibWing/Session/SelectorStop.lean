import LibWing.Session.Restore

/-!
# A restore stops at a failed selector

Values that come after a model selector may belong to its model, so a restore whose selector fails
must not write them.  A selector that was attempted and failed stops the restore.  A read-only
selector is reported as failed as well, but the restore goes on after it.

* `StopsAtSelector` : the entries after a selector that is reported as failed are reported as failed
  too, and nothing of them is handed to the transport;
* `NoSkippedSelector` : nothing is left to write after a read-only selector;
* `restore_stops_iff` : every execution stops at its failed selectors exactly if nothing is left to
  write after a read-only one.
-/

namespace LibWing

open Interleave

namespace Session

/-- Nothing of an entry after a selector that failed is handed to the transport, and all of these
entries are reported as failed. -/
def StopsAtSelector (ordered : List DumpEntry) (results : List (String × Result Unit))
    (bytes : List UInt8) : Prop :=
  ∀ i sel, ordered[i]? = some sel → isSelector sel.fullname = true → Failed (results.map (·.2)) i →
    (∀ j, i < j → j < ordered.length → Failed (results.map (·.2)) j) ∧
    ∃ sent : List DumpEntry, sent.Sublist (ordered.take (i + 1)) ∧
      bytes = sent.flatMap DumpEntry.message

/-- A restore that comes to the entry goes on after it, if its writes succeed. -/
def passable (readOnly : String → Bool) (entry : DumpEntry) : Bool :=
  !isSelector entry.fullname || readOnly entry.fullname || entry.encodable

/-- Up to the first selector that is writable but cannot be encoded, no entry that is writable and
can be encoded comes after a read-only selector. -/
def NoSkippedSelector (readOnly : String → Bool) (ordered : List DumpEntry) : Prop :=
  (ordered.takeWhile (passable readOnly)).Pairwise fun a b =>
    isSelector a.fullname = true → readOnly a.fullname = true →
      ¬ (readOnly b.fullname = false ∧ b.encodable = true)

instance (readOnly : String → Bool) (ordered : List DumpEntry) :
    Decidable (NoSkippedSelector readOnly ordered) :=
  inferInstanceAs (Decidable (List.Pairwise _ _))

variable {readOnly : String → Bool} {ordered : List DumpEntry}

theorem getElem?_takeWhile {α : Type} {p : α → Bool} {l : List α} {j : ℕ} {a : α} :
    (l.takeWhile p)[j]? = some a ↔
      l[j]? = some a ∧ ∀ k ≤ j, ∀ b, l[k]? = some b → p b = true := by
  induction l generalizing j with
  | nil => simp
  | cons b l ih =>
    by_cases hb : p b = true
    · rw [List.takeWhile_cons_of_pos hb]
      cases j with
      | zero => simp +contextual [hb]
      | succ j =>
        rw [List.getElem?_cons_succ, List.getElem?_cons_succ, ih]
        refine and_congr_right fun _ => ⟨fun h k hk c hc => ?_, fun h k hk c hc => ?_⟩
        · cases k with
          | zero =>
            cases hc
            exact hb
          | succ k => exact h k (Nat.le_of_succ_le_succ hk) c hc
        · exact h (k + 1) (Nat.succ_le_succ hk) c hc
    · rw [List.takeWhile_cons_of_neg hb]
      refine ⟨nofun, fun h => absurd (h.2 0 (Nat.zero_le j) b rfl) hb⟩

theorem noSkippedSelector_iff : NoSkippedSelector readOnly ordered ↔
    ∀ (i j : ℕ) (a b : DumpEntry), i < j → ordered[i]? = some a → ordered[j]? = some b →
      (∀ k ≤ j, ∀ e, ordered[k]? = some e → passable readOnly e = true) →
      isSelector a.fullname = true → readOnly a.fullname = true →
        ¬ (readOnly b.fullname = false ∧ b.encodable = true) := by
  rw [NoSkippedSelector, List.pairwise_iff_getElem]
  constructor
  · intro h i j a b hij ha hb hpass
    have hb' := getElem?_takeWhile.mpr ⟨hb, hpass⟩
    have ha' := getElem?_takeWhile.mpr ⟨ha, fun k hk => hpass k (hk.trans hij.le)⟩
    obtain ⟨hj, hb'⟩ := List.getElem?_eq_some_iff.mp hb'
    obtain ⟨hi, ha'⟩ := List.getElem?_eq_some_iff.mp ha'
    have := h i j hi hj hij
    rwa [ha', hb'] at this
  · intro h i j hi hj hij
    obtain ⟨ha, -⟩ := getElem?_takeWhile.mp (List.getElem?_eq_getElem hi)
    obtain ⟨hb, hpass⟩ := getElem?_takeWhile.mp (List.getElem?_eq_getElem hj)
    exact h i j _ _ hij ha hb hpass

theorem DumpEntry.message_of_not_encodable {e : DumpEntry} (h : e.encodable = false) :
    e.message = [] := by
  unfold DumpEntry.message itemBytes
  unfold DumpEntry.encodable Session.encodable at h
  cases hmsg : setValueMessage e.item.1 e.item.2.toNative with
  | error _ => rfl
  | ok bytes =>
    rw [hmsg] at h
    cases h

theorem sent_take {l sent : List DumpEntry} {w : DumpEntry → Bool} (k : ℕ)
    (hsent : sent.Sublist (l.filter w)) (hlater : ∀ e ∈ l.drop k, w e = true → e.message = []) :
    ∃ sent' : List DumpEntry, sent'.Sublist (l.take k) ∧
      sent.flatMap DumpEntry.message = sent'.flatMap DumpEntry.message := by
  rw [← List.take_append_drop k l, List.filter_append, List.sublist_append_iff] at hsent
  obtain ⟨s₁, s₂, rfl, h₁, h₂⟩ := hsent
  refine ⟨s₁, h₁.trans List.filter_sublist, ?_⟩
  have hnil : s₂.flatMap DumpEntry.message = [] := by
    rw [List.flatMap_eq_nil_iff]
    intro e he
    obtain ⟨hdrop, hw⟩ := List.mem_filter.mp (h₂.subset he)
    exact hlater e hdrop hw
  rw [List.flatMap_append, hnil, List.append_nil]

/-! ### The condition suffices -/

/-- No selector failed to be written. -/
theorem Running.stops {r : RestoreState} {bytes : List UInt8}
    (h : Running readOnly ordered r bytes) (hbatch : r.batch = [])
    (hskip : NoSkippedSelector readOnly ordered) : StopsAtSelector ordered r.results bytes := by
  intro i sel hi hsel hfails
  have hpass : ∀ (k : ℕ) (e : DumpEntry), ordered[k]? = some e → passable readOnly e = true := by
    intro k e hk
    by_cases hs : isSelector e.fullname = true
    · by_cases hro : readOnly e.fullname = true
      · simp [passable, hro]
      · simp [passable, (h.selectors k e hk hs (Bool.not_eq_true _ ▸ hro)).1]
    · simp [passable, hs]
  -- The selector was not attempted, so it is read-only.
  have hro : readOnly sel.fullname = true := by
    by_contra hro
    exact (h.selectors i sel hi hsel (Bool.not_eq_true _ ▸ hro)).2 hfails
  have hlater : ∀ (j : ℕ) (e : DumpEntry), i < j → ordered[j]? = some e →
      readOnly e.fullname = true ∨ e.encodable = false := by
    intro j e hij hj
    have := noSkippedSelector_iff.mp hskip i j sel e hij hi hj (fun k _ => hpass k) hsel hro
    rw [not_and_or] at this
    simpa using this
  constructor
  · intro j hij hj
    have hget := List.getElem?_eq_getElem hj
    rcases hlater j _ hij hget with hro' | henc
    · exact h.skipped j _ hget hro'
    · rcases h.unencodable j _ hget henc with hmem | hf
      · rw [hbatch] at hmem
        cases hmem
      · exact hf
  · obtain ⟨sent, hsub, rfl⟩ := h.sent
    rw [hbatch, List.map_nil, List.append_nil] at hsub
    refine sent_take (i + 1) hsub fun e he hw => ?_
    obtain ⟨k, hk⟩ := List.mem_iff_getElem?.mp he
    rw [List.getElem?_drop] at hk
    rcases hlater _ e (by omega) hk with hro' | henc
    · rw [hro'] at hw
      cases hw
    · exact DumpEntry.message_of_not_encodable henc

section Stops

variable {before after : List DumpEntry} {attempted sel : DumpEntry} {r : RestoreState}
  {bytes : List UInt8} {i : ℕ}
  (h : Stopped readOnly (before ++ attempted :: after) r bytes before attempted)
  (hfirst : SelectorsFirst (before ++ attempted :: after))
include h hfirst

theorem Stopped.isSelector_before {k : ℕ} {e : DumpEntry} (hk : before[k]? = some e) :
    isSelector e.fullname = true :=
  (List.pairwise_append.mp hfirst).2.2 e (List.mem_of_getElem? hk) attempted (List.mem_cons_self ..)
    h.selector.1

theorem Stopped.passable_before {k : ℕ} {e : DumpEntry} (hk : before[k]? = some e) :
    passable readOnly e = true := by
  by_cases hro : readOnly e.fullname = true
  · simp [passable, hro]
  · have hsel := h.isSelector_before hfirst hk
    simp [passable, (h.selectors k e hk hsel (Bool.not_eq_true _ ▸ hro)).1]

theorem Stopped.readOnly_between (hskip : NoSkippedSelector readOnly (before ++ attempted :: after))
    (hi : before[i]? = some sel) (hro : readOnly sel.fullname = true) {j : ℕ} {e : DumpEntry}
    (hij : i < j) (hj : before[j]? = some e) : readOnly e.fullname = true := by
  by_contra hw
  have hw : readOnly e.fullname = false := Bool.not_eq_true _ ▸ hw
  refine noSkippedSelector_iff.mp hskip i j sel e hij (getElem?_append hi) (getElem?_append hj)
    (fun k hk e' hk' => ?_) (h.isSelector_before hfirst hi) hro
    ⟨hw, (h.selectors j e hj (h.isSelector_before hfirst hj) hw).1⟩
  have hlen := (List.getElem?_eq_some_iff.mp hj).1
  rw [List.getElem?_append_left (by omega)] at hk'
  exact h.passable_before hfirst hk'

/-- After a read-only selector, the one that was attempted cannot be encoded. -/
theorem Stopped.attempted_unencodable
    (hskip : NoSkippedSelector readOnly (before ++ attempted :: after))
    (hi : before[i]? = some sel) (hro : readOnly sel.fullname = true) :
    attempted.encodable = false := by
  by_contra henc
  have henc : attempted.encodable = true := Bool.not_eq_false _ ▸ henc
  have hlt : i < before.length := (List.getElem?_eq_some_iff.mp hi).1
  have hat : (before ++ attempted :: after)[before.length]? = some attempted := by simp
  refine noSkippedSelector_iff.mp hskip i before.length sel attempted hlt (getElem?_append hi) hat
    (fun k hk e hk' => ?_) (h.isSelector_before hfirst hi) hro ⟨h.selector.2, henc⟩
  rcases Nat.lt_or_ge k before.length with hk | hk
  · rw [List.getElem?_append_left hk] at hk'
    exact h.passable_before hfirst hk'
  · have : k = before.length := by omega
    rw [this, hat] at hk'
    cases hk'
    simp [passable, henc]

end Stops

/-- A selector was attempted and failed. -/
theorem Stopped.stops {before : List DumpEntry} {attempted : DumpEntry} {r : RestoreState}
    {bytes : List UInt8} (h : Stopped readOnly ordered r bytes before attempted)
    (hfirst : SelectorsFirst ordered) (hskip : NoSkippedSelector readOnly ordered) :
    StopsAtSelector ordered r.results bytes := by
  intro i sel hi hsel hfails
  obtain ⟨sent, hsub, rfl⟩ := h.sent
  obtain ⟨after, rfl⟩ := h.at_sel
  rcases Nat.lt_or_ge i before.length with hlt | hge
  · -- A selector before it that is reported as failed is read-only.
    have hi' : before[i]? = some sel := by rwa [List.getElem?_append_left hlt] at hi
    have hro : readOnly sel.fullname = true := by
      by_contra hro
      exact (h.selectors i sel hi' hsel (Bool.not_eq_true _ ▸ hro)).2 hfails
    constructor
    · intro j hij hj
      rcases Nat.lt_or_ge j before.length with hb | hb
      · have hget := List.getElem?_eq_getElem hb
        exact h.skipped j _ hget (h.readOnly_between hfirst hskip hi' hro hij hget)
      · exact h.failed j hb hj
    · obtain ⟨sent', hsub', heq⟩ := sent_take (i + 1) hsub fun e he hw => by
        obtain ⟨k, hk⟩ := List.mem_iff_getElem?.mp he
        rw [List.getElem?_drop] at hk
        rcases getElem?_snoc hk with hk | ⟨-, rfl⟩
        · rw [h.readOnly_between hfirst hskip hi' hro (by omega) hk] at hw
          cases hw
        · exact DumpEntry.message_of_not_encodable (h.attempted_unencodable hfirst hskip hi' hro)
      refine ⟨sent', ?_, heq⟩
      rw [List.take_append_of_le_length hlt] at hsub' ⊢
      exact hsub'
  · constructor
    · exact fun j hij hj => h.failed j (by omega) hj
    · refine ⟨sent, (hsub.trans List.filter_sublist).trans ?_, rfl⟩
      have htake : before ++ [attempted] = (before ++ attempted :: after).take
          (before.length + 1) := by
        simp [List.take_append]
      rw [htake]
      exact (List.take_prefix_take_left (by omega)).sublist

/-! ### A restore alone, with a transport that takes everything -/

/-- Nothing keeps a bulk call of this generation from writing. -/
def Undisturbed (generation : ℕ) (s : Shared) : Prop :=
  s.reader.streamTainted = false ∧ s.reconnecting = false ∧ s.sessionGeneration = generation

variable {call : BulkCall} {slot : ℕ → ℕ} {env : Env} {s : Shared}

theorem flushNodeWrites_alone (henv : env.write = .ok ()) (hs : Undisturbed call.generation s)
    (buf : List UInt8) (queued : List ℕ) (results : List (Result Unit)) :
    (flushNodeWrites call slot buf queued results).Alone env s fun results' s' =>
      results' = results ∧ Undisturbed call.generation s' := by
  by_cases hempty : buf = []
  · rw [flushNodeWrites, if_pos hempty]
    exact ⟨rfl, hs⟩
  rw [flushNodeWrites, if_neg hempty]
  refine .atomically ?_
  have hsession : ¬ (s.reconnecting || s.sessionGeneration ≠ call.generation) = true := by
    simp [hs.2.1, hs.2.2]
  simp only [if_neg (Bool.eq_false_iff.mp hs.1), if_neg hsession, henv]
  exact ⟨trivial, hs⟩

/-- The result of an item that is written if it can be encoded. -/
def outcome (item : Int32 × NodeValue) : Result Unit :=
  (setValueMessage item.1 item.2.toNative).map fun _ => ()

theorem outcome_of_encodable {item : Int32 × NodeValue} (h : encodable item = true) :
    outcome item = .ok () := by
  unfold encodable at h
  unfold outcome
  cases hmsg : setValueMessage item.1 item.2.toNative with
  | ok bytes => rfl
  | error e =>
    rw [hmsg] at h
    cases h

theorem writeLoop_alone (henv : env.write = .ok ()) (hs : Undisturbed call.generation s)
    (items : List (Int32 × NodeValue)) (i : ℕ) (buf : List UInt8) (queued : List ℕ)
    (results : List (Result Unit)) :
    (writeLoop call slot items i buf queued results).Alone env s fun results' s' =>
      results' = results ++ items.map outcome ∧ Undisturbed call.generation s' := by
  induction items generalizing i buf queued results s with
  | nil =>
    rw [List.map_nil, List.append_nil]
    exact flushNodeWrites_alone henv hs buf queued results
  | cons item items ih =>
    obtain ⟨id, value⟩ := item
    have hsplit : ∀ result : Result Unit,
        results ++ result :: items.map outcome = results ++ [result] ++ items.map outcome := by simp
    have hcontinue : ∀ (buf : List UInt8) (queued : List ℕ) {s : Shared},
        Undisturbed call.generation s →
        (if buf.length ≥ writeBatchBytes then do
            let results ← flushNodeWrites call slot buf queued (results ++ [outcome (id, value)])
            writeLoop call slot items (i + 1) [] [] results
          else writeLoop call slot items (i + 1) buf queued
            (results ++ [outcome (id, value)])).Alone
          env s fun results' s' => results' = results ++ outcome (id, value) :: items.map outcome ∧
            Undisturbed call.generation s' := by
      intro buf queued s hs
      rw [hsplit]
      by_cases hfull : buf.length ≥ writeBatchBytes
      · rw [if_pos hfull]
        refine (flushNodeWrites_alone henv hs buf queued _).bind ?_
        rintro results' s' ⟨rfl, hs'⟩
        exact ih hs' _ _ _ _
      · rw [if_neg hfull]
        exact ih hs _ _ _ _
    refine ⟨rfl, ?_⟩
    show Prog.Alone env (if s.reader.streamTainted = true then _ else _) s _
    rw [if_neg (by rw [hs.1]; exact Bool.false_ne_true)]
    have happend := appendValueMessage_eq buf (id, value)
    cases hmsg : setValueMessage id value.toNative with
    | error e =>
      have hout : outcome (id, value) = .error e := by simp [outcome, hmsg, Except.map]
      rw [hmsg] at happend
      rw [hout] at hcontinue
      simp only [happend, Except.map, List.map_cons, hout]
      exact hcontinue _ _ hs
    | ok bytes =>
      have hout : outcome (id, value) = .ok () := by simp [outcome, hmsg, Except.map]
      rw [hmsg] at happend
      rw [hout] at hcontinue
      simp only [happend, Except.map, List.map_cons, hout]
      exact hcontinue _ _ hs

theorem flushRestoreBatch_alone (henv : env.write = .ok ()) (hs : Undisturbed call.generation s)
    {r : RestoreState} (hr : Restoring r) :
    (flushRestoreBatch call r).Alone env s fun r' s' =>
      (r'.batch = [] ∧ r'.selectorFailed = r.selectorFailed ∧ r'.results.length = r.results.length ∧
        ∀ j, r'.Fails j → r.Fails j ∨ ∃ p ∈ r.batch, p.1 = j ∧ p.2.encodable = false) ∧
      Undisturbed call.generation s' := by
  refine (writeLoop_alone henv hs _ 0 [] [] []).bind ?_
  rintro written s' ⟨rfl, hs'⟩
  refine ⟨⟨rfl, rfl, ?_, fun j hj => ?_⟩, hs'⟩
  · exact length_foldl_setResult _ _
  · rw [List.nil_append, List.map_map] at hj
    obtain ⟨e, he⟩ := hj
    change (List.map _ (List.foldl _ r.results ((r.batch.map (·.1)).zip
      (r.batch.map fun p => outcome p.2.item))))[j]? = _ at he
    rw [List.zip_map', foldl_setResult_map] at he
    have hslots : (r.batch.map fun p => (p.1, outcome p.2.item)).map (·.1) = r.batch.map (·.1) := by
      rw [List.map_map]
      rfl
    by_cases hmem : j ∈ r.batch.map (·.1)
    · obtain ⟨p, hp, rfl⟩ := List.mem_map.mp hmem
      have hpair : (p.1, outcome p.2.item) ∈ r.batch.map fun p => (p.1, outcome p.2.item) :=
        List.mem_map.mpr ⟨p, hp, rfl⟩
      rw [foldl_set_of_mem _ _ (by rw [hslots]; exact hr.nodup) hpair
        (by rw [List.length_map]; exact hr.inside _ hmem)] at he
      refine Or.inr ⟨p, hp, rfl, ?_⟩
      by_contra henc
      rw [outcome_of_encodable (Bool.not_eq_false _ ▸ henc)] at he
      cases he
    · rw [foldl_set_of_not_mem _ _ (by rw [hslots]; exact hmem)] at he
      exact Or.inl ⟨e, he⟩

/-- Where a restore is after some entries, if nothing but the entries themselves is in its way. -/
structure Smooth (readOnly : String → Bool) (done : List DumpEntry) (r : RestoreState) : Prop where
  /-- Every entry so far has a result. -/
  length : r.results.length = done.length
  /-- What waits is in order. -/
  restoring : Restoring r
  /-- What waits are entries so far. -/
  batch : ∀ p ∈ r.batch, done[p.1]? = some p.2
  /-- It has not stopped if all of them can be passed. -/
  going : (∀ e ∈ done, passable readOnly e = true) → r.selectorFailed = false
  /-- And what can be written is then not failed. -/
  written : ∀ j e, done[j]? = some e →
    (∀ k ≤ j, ∀ e', done[k]? = some e' → passable readOnly e' = true) →
    readOnly e.fullname = false → e.encodable = true → ¬ r.Fails j

namespace Smooth

variable {done : List DumpEntry} {r r' : RestoreState} {entry : DumpEntry}

/-- An entry is skipped. -/
theorem skip (h : Smooth readOnly done r) (e : Error)
    (hskip : (r.selectorFailed || readOnly entry.fullname) = true) :
    Smooth readOnly (done ++ [entry])
      { r with results := r.results ++ [(entry.fullname, .error e)] } where
  length := by simp [h.length]
  restoring := ⟨h.restoring.nodup, h.restoring.inside_append _⟩
  batch p hp := getElem?_append (h.batch p hp)
  going hpass := h.going fun e he => hpass e (List.mem_append_left _ he)
  written j e hj hpass hrw henc := by
    rcases getElem?_snoc hj with hj | ⟨rfl, rfl⟩
    · have hlt := h.length ▸ (List.getElem?_eq_some_iff.mp hj).1
      exact (fails_append hlt).not.mpr
        (h.written j e hj (fun k hk e' hk' => hpass k hk e' (getElem?_append hk')) hrw henc)
    · -- If all entries before it are passable, only a read-only entry is skipped.
      have hgoing : r.selectorFailed = false := by
        refine h.going fun e' he' => ?_
        obtain ⟨k, hk⟩ := List.mem_iff_getElem?.mp he'
        exact hpass k (List.getElem?_eq_some_iff.mp hk).1.le e' (getElem?_append hk)
      rw [hgoing, hrw] at hskip
      cases hskip

/-- An entry joins the batch. -/
theorem join (h : Smooth readOnly done r) (hgoing : r.selectorFailed = false) :
    Smooth readOnly (done ++ [entry]) { r with
      results := r.results ++ [(entry.fullname, .ok ())]
      batch := r.batch ++ [(r.results.length, entry)] } where
  length := by simp [h.length]
  restoring := h.restoring.join entry
  batch p hp := by
    rcases List.mem_append.mp hp with hp | hp
    · exact getElem?_append (h.batch p hp)
    · rw [List.mem_singleton.mp hp, h.length]
      exact List.getElem?_concat_length
  going _ := hgoing
  written j e hj hpass hrw henc := by
    rcases getElem?_snoc hj with hj | ⟨rfl, rfl⟩
    · have hlt := h.length ▸ (List.getElem?_eq_some_iff.mp hj).1
      exact (fails_append hlt).not.mpr
        (h.written j e hj (fun k hk e' hk' => hpass k hk e' (getElem?_append hk')) hrw henc)
    · rw [← h.length]
      exact fails_last.not.mpr nofun

/-- The batch is flushed; `failed` is what the flag says afterwards. -/
theorem flush (h : Smooth readOnly done r) (hbatch : r'.batch = [])
    (hlen : r'.results.length = r.results.length)
    (hfails : ∀ j, r'.Fails j → r.Fails j ∨ ∃ p ∈ r.batch, p.1 = j ∧ p.2.encodable = false)
    {failed : Bool} (hgoing : (∀ e ∈ done, passable readOnly e = true) → failed = false) :
    Smooth readOnly done { r' with selectorFailed := failed } where
  length := hlen.trans h.length
  restoring := by
    constructor
    · rw [hbatch]
      exact List.nodup_nil
    · rw [hbatch]
      exact nofun
  batch p hp := by
    rw [hbatch] at hp
    cases hp
  going := hgoing
  written j e hj hpass hrw henc hf := by
    rcases hfails j hf with hf | ⟨p, hp, rfl, hno⟩
    · exact h.written j e hj hpass hrw henc hf
    · have := h.batch p hp
      rw [hj] at this
      cases this
      rw [henc] at hno
      cases hno

end Smooth

theorem restoreEntry_alone (henv : env.write = .ok ()) (hs : Undisturbed call.generation s)
    {done : List DumpEntry} {r : RestoreState} {entry : DumpEntry} (h : Smooth readOnly done r) :
    (restoreEntry call readOnly entry r).Alone env s fun r' s' =>
      Smooth readOnly (done ++ [entry]) r' ∧ Undisturbed call.generation s' := by
  unfold restoreEntry
  by_cases hskip : (r.selectorFailed || readOnly entry.fullname) = true
  · rw [if_pos hskip]
    exact ⟨h.skip _ hskip, hs⟩
  rw [if_neg hskip]
  obtain ⟨hgoing, hrw⟩ : r.selectorFailed = false ∧ readOnly entry.fullname = false := by
    simpa using hskip
  have hjoin : Smooth readOnly (done ++ [entry]) _ := h.join hgoing
  by_cases hsel : isSelector entry.fullname = true
  · simp only [hsel, if_true]
    refine (flushRestoreBatch_alone henv hs hjoin.restoring).bind ?_
    rintro r' s' ⟨⟨hbatch, -, hlen, hfails⟩, hs'⟩
    refine ⟨hjoin.flush hbatch hlen hfails fun hpass => ?_, hs'⟩
    have hlt : r.results.length < r'.results.length := by
      rw [hlen, List.length_append]
      exact Nat.lt_add_one _
    have hlast : (done ++ [entry])[r.results.length]? = some entry := by
      rw [h.length]
      exact List.getElem?_concat_length
    -- A passable selector that is writable can be encoded.
    have henc : entry.encodable = true := by
      have := hpass entry (List.mem_append_right _ (List.mem_singleton.mpr rfl))
      simpa [passable, hsel, hrw] using this
    refine decide_eq_false ((selectorFailed_iff hlt).not.mpr fun hf => ?_)
    rcases hfails _ hf with hf | ⟨p, hp, hj, hno⟩
    · obtain ⟨e, he⟩ := fails_last.mp hf
      cases he
    · have := hjoin.batch p hp
      rw [hj, hlast] at this
      cases this
      rw [henc] at hno
      cases hno
  · simp only [hsel]
    exact ⟨hjoin, hs⟩

theorem restoreLoop_alone (henv : env.write = .ok ()) (hs : Undisturbed call.generation s)
    {entries done : List DumpEntry} {r : RestoreState} (h : Smooth readOnly done r) :
    (restoreLoop call readOnly entries r).Alone env s fun r' s' =>
      Smooth readOnly (done ++ entries) r' ∧ Undisturbed call.generation s' := by
  induction entries generalizing done r s with
  | nil =>
    rw [List.append_nil]
    refine (flushRestoreBatch_alone henv hs h.restoring).mono ?_
    rintro r' s' ⟨⟨hbatch, hsame, hlen, hfails⟩, hs'⟩
    have hflush : Smooth readOnly done { r' with selectorFailed := r'.selectorFailed } :=
      h.flush hbatch hlen hfails fun hpass => hsame.trans (h.going hpass)
    exact ⟨hflush, hs'⟩
  | cons entry entries ih =>
    refine (restoreEntry_alone henv hs h).bind ?_
    rintro r' s' ⟨h', hs'⟩
    have := ih hs' h'
    rwa [List.append_assoc] at this

theorem restore_alone (henv : env.write = .ok ()) (hs : Undisturbed s.sessionGeneration s) (t : ℕ)
    (entries : List DumpEntry) :
    (restore t readOnly entries).Alone env s fun results _ =>
      ∀ j e, (restoreOrder entries)[j]? = some e →
        (∀ k ≤ j, ∀ e', (restoreOrder entries)[k]? = some e' → passable readOnly e' = true) →
        readOnly e.fullname = false → e.encodable = true → ¬ Failed (results.map (·.2)) j := by
  have hstart : Smooth readOnly [] ⟨[], [], false⟩ := {
    length := rfl
    restoring := ⟨List.nodup_nil, nofun⟩
    batch := nofun
    going := fun _ => rfl
    written := nofun }
  refine ⟨rfl, ?_⟩
  refine (restoreLoop_alone henv ?_ hstart).bind ?_
  · exact hs
  · rintro r s' ⟨h, -⟩
    exact ⟨rfl, h.written⟩

theorem noSkippedSelector_of_stops {t : ℕ} {entries : List DumpEntry}
    (hstops : (restore t readOnly entries).Always handedBytes
      (StopsAtSelector (restoreOrder entries))) :
    NoSkippedSelector readOnly (restoreOrder entries) := by
  rw [noSkippedSelector_iff]
  rintro i j a b hij ha hb hpass hsel hro ⟨hrw, henc⟩
  -- A restore that runs alone over a transport that takes everything writes `b`.
  have henv : (Env.calm []).write = .ok () := rfl
  have hnew : Undisturbed (Shared.new 0 []).sessionGeneration (Shared.new 0 []) := ⟨rfl, rfl, rfl⟩
  obtain ⟨results, bytes, -, ⟨hstop, r, rfl, -, hr⟩, hwritten⟩ :=
    (hstops.and (restore_always t entries)).alone (restore_alone henv hnew t entries)
  have hfails : r.Fails i := by
    rcases hr with hr | ⟨before, sel, hr⟩
    · exact hr.skipped i a ha hro
    · obtain ⟨after, hsplit⟩ := hr.at_sel
      rcases Nat.lt_or_ge i before.length with hi | hi
      · rw [hsplit, List.getElem?_append_left hi] at ha
        exact hr.skipped i a ha hro
      · exact hr.failed i hi (List.getElem?_eq_some_iff.mp ha).1
  exact hwritten j b hb hpass hrw henc
    ((hstop i a ha hsel hfails).1 j hij (List.getElem?_eq_some_iff.mp hb).1)

/-- **When a failed selector stops the restore.**  Whatever the transport answers and whatever other
clones do, a restore stops at every selector it reports as failed, exactly if nothing is left to
write after a read-only selector. -/
theorem restore_stops_iff (t : ℕ) (readOnly : String → Bool) (entries : List DumpEntry) :
    (restore t readOnly entries).Always handedBytes (StopsAtSelector (restoreOrder entries)) ↔
      NoSkippedSelector readOnly (restoreOrder entries) := by
  refine ⟨noSkippedSelector_of_stops, fun hskip => ?_⟩
  refine (restore_always t entries).mono ?_
  rintro results bytes ⟨r, rfl, hbatch, hr | ⟨before, sel, hr⟩⟩
  · exact hr.stops hbatch hskip
  · exact hr.stops (restoreOrder_selectorsFirst entries) hskip

/-- A map in which the model of an effect is read-only. -/
def readOnlyModel (name : String) : Bool := name = "/fx/1/mdl"

/-- A dump with the model and one of its parameters. -/
def readOnlyModelDump : List DumpEntry :=
  [⟨"/fx/1/mdl", 1, .string "HALL"⟩, ⟨"/fx/1/HALL/pdel", 2, .int 7⟩]

/-- The model is reported as failed, and the parameter is written all the same. -/
theorem readOnlyModel_not_stops :
    ¬ (restore 0 readOnlyModel readOnlyModelDump).Always handedBytes
        (StopsAtSelector (restoreOrder readOnlyModelDump)) := by
  intro hstops
  have horder : restoreOrder readOnlyModelDump = readOnlyModelDump := by
    refine List.mergeSort_of_pairwise ?_
    simp only [restoreOrderKey, isSelector_eq]
    decide +kernel
  have hcond := noSkippedSelector_of_stops hstops
  have hpass : passable readOnlyModel = fun e =>
      !decide ((e.fullname.toList.splitOnP (· == '/')).getLast? = some ['m', 'd', 'l']) ||
        readOnlyModel e.fullname || e.encodable := by
    funext e
    rw [passable, isSelector_eq]
  rw [horder, NoSkippedSelector, hpass] at hcond
  simp only [isSelector_eq] at hcond
  revert hcond
  decide +kernel

end Session

end LibWing
