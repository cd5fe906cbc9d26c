import LibWing.Session.Invariant

/-!
# Outlines of the calls

A proof outline for every call but the bulk writes: between two sections of a call stands what its
thread knows there.

* `Holding` : what a reconnect knows while it holds its gate.  Nobody else changes the phase, the
  generation or the installed session meanwhile;
* `Reading` : what a call knows while it holds the read gate.  No streams are swapped meanwhile;
* `reconnect_outline`, `readerCall_outline`, … : the outlines, from `Resting` to `Resting`.
-/

namespace LibWing

open Interleave Stateful

namespace Session

variable {s s' : Shared} {t : ℕ}

/-! ### What is stable -/

/-- An event stands where it stood. -/
theorem Rely.stands (h : Rely t s s') {since : ℕ} {e : Event} (hs : s.log[since]? = some e) :
    s'.log[since]? = some e := by
  obtain ⟨new, hlog, -⟩ := h.log
  rw [hlog]
  exact getElem?_append hs

/-- The others put nothing down in the name of thread `t`. -/
theorem Rely.own (h : Rely t s s') {e : Happening} : ⟨t, e⟩ ∈ s'.log ↔ ⟨t, e⟩ ∈ s.log := by
  obtain ⟨new, hlog, hnew⟩ := h.log
  rw [hlog, List.mem_append]
  constructor
  · rintro (hmem | hmem)
    · exact hmem
    · exact absurd rfl (hnew _ hmem)
  · exact Or.inl

theorem stable_resting : Stable (Rely t) (Resting t) := by
  intro s s' h hrest
  exact ⟨fun hgate => hrest.1 (h.reconnectGate.mp hgate),
    fun hgate => hrest.2 (h.readGate.mp hgate)⟩

theorem stable_resting_and {A : Shared → Prop} (hA : ∀ s s', Rely t s s' → A s → A s') :
    Stable (Rely t) fun s => Resting t s ∧ A s := by
  rintro s s' h ⟨hrest, ha⟩
  exact ⟨stable_resting s s' h hrest, hA s s' h ha⟩

/-! ### Sections that disturb nobody -/

/-- The gates, the phase and the sessions. -/
def Shared.control (s : Shared) : Option ℕ × Option ℕ × Phase × ℕ × ℕ :=
  (s.reconnectGate, s.readGate, s.phase, s.sessionGeneration, s.installed)

theorem quiet_of_control (h : s'.control = s.control) : Quiet t s s' := by
  simp only [Shared.control, Prod.mk.injEq] at h
  obtain ⟨hrec, hread, hphase, hgen, hinst⟩ := h
  exact {
    reconnectGate := fun _ _ => by rw [hrec]
    readGate := fun _ _ => by rw [hread]
    phase := hphase
    sessionGeneration := hgen
    installed := hinst }

theorem own_singleton {e : Happening} : ∀ e' ∈ [Event.mk t e], e'.thread = t := by
  intro e' he
  rw [List.mem_singleton.mp he]

theorem own_nil : ∀ e' ∈ ([] : List Event), e'.thread = t := fun _ he => absurd he List.not_mem_nil

theorem Guar.refl (h : Inv s) : Guar t s s := ⟨h, fun t' _ => Rely.refl t' s⟩

theorem Guar.of_silent (hinv : Inv s') (hcontrol : s'.control = s.control)
    (hlog : s'.log = s.log) : Guar t s s' :=
  ⟨hinv, (quiet_of_control hcontrol).rely (hlog.trans (List.append_nil _).symm) own_nil⟩

/-- … and one that puts one event down. -/
theorem Guar.of_record {e : Happening} (hinv : Inv s') (hcontrol : s'.control = s.control)
    (hlog : s'.log = s.log ++ [⟨t, e⟩]) : Guar t s s' :=
  ⟨hinv, (quiet_of_control hcontrol).rely hlog own_singleton⟩

/-- A section that only looks. -/
theorem load_outline {α : Type} {f : Shared → α} {P : Shared → Prop} {Q : α → Shared → Prop}
    (hstable : Stable (Rely t) P) (hpost : ∀ a, Stable (Rely t) (Q a))
    (h : ∀ s, Inv s → P s → Q (f s) s) : ThreadOutline t Q (.load f) P :=
  .load (fun _ hs => Guar.refl hs) hstable hpost h

/-! ### Reconnecting -/

variable {since g : ℕ} {p : Phase} {reading : Bool}

/-- What a reconnect knows while it holds its gate. -/
structure Holding (t since g : ℕ) (p : Phase) (reading : Bool) (s : Shared) : Prop where
  /-- The log says what it sampled, and when. -/
  sampled : s.log[since]? = some ⟨t, .sampled g⟩
  /-- It holds the reconnect gate. -/
  gate : s.reconnectGate = some t
  /-- And the read gate, if it reads. -/
  readGate : s.readGate = some t ↔ reading = true
  /-- This is where it stands. -/
  phase : s.phase = p

theorem stable_holding {A : Shared → Prop} (hA : ∀ s s', Rely t s s' →
      s'.sessionGeneration = s.sessionGeneration → s'.installed = s.installed → A s → A s') :
    Stable (Rely t) fun s => Holding t since g p reading s ∧ A s := by
  rintro s s' h ⟨hold, ha⟩
  obtain ⟨hphase, hgen, hinst⟩ := h.reconnect hold.gate
  refine ⟨?_, hA s s' h hgen hinst ha⟩
  exact {
    sampled := h.stands hold.sampled
    gate := h.reconnectGate.mpr hold.gate
    readGate := h.readGate.trans hold.readGate
    phase := hphase.trans hold.phase }

/-- The generation is the one that was sampled. -/
def Current (g : ℕ) (s : Shared) : Prop := s.sessionGeneration = g

/-- The call has put its streams in place. -/
def Swapped (t since : ℕ) (s : Shared) : Prop :=
  ∃ now rsock, ⟨t, .swapped since s.installed now rsock⟩ ∈ s.log

/-- The call has published its session. -/
def Published (t since : ℕ) (s : Shared) : Prop :=
  ⟨t, .published since s.sessionGeneration⟩ ∈ s.log

/-- The call has published nothing. -/
def Unpublished (t since : ℕ) (s : Shared) : Prop := ∀ k, ⟨t, .published since k⟩ ∉ s.log

theorem stable_current : Stable (Rely t) fun s => Holding t since g p reading s ∧ Current g s :=
  stable_holding fun _ _ _ hgen _ hcur => hgen.trans hcur

theorem stable_swapped :
    Stable (Rely t) fun s => Holding t since g p reading s ∧ Swapped t since s := by
  refine stable_holding fun s s' h _ hinst hswapped => ?_
  obtain ⟨now, rsock, hmem⟩ := hswapped
  refine ⟨now, rsock, h.own.mpr ?_⟩
  rw [hinst]
  exact hmem

theorem stable_published :
    Stable (Rely t) fun s => Holding t since g p reading s ∧ Published t since s := by
  refine stable_holding fun s s' h hgen _ hpub => h.own.mpr ?_
  rw [hgen]
  exact hpub

theorem Unpublished.rely (h : Rely t s s') (hun : Unpublished t since s) : Unpublished t since s' :=
  fun k hmem => hun k (h.own.mp hmem)

/-- What a result of `reconnect` says. -/
def Reported (t since g : ℕ) (result : Result ReconnectOutcome) (s : Shared) : Prop :=
  match result with
  | .ok outcome =>
    (outcome.attempts = 0 → g < s.sessionGeneration ∧ Unpublished t since s) ∧
      (outcome.attempts ≠ 0 → Published t since s)
  | .error _ => True

theorem stable_reported (result : Result ReconnectOutcome) :
    Stable (Rely t) fun s => Holding t since g p reading s ∧ Reported t since g result s := by
  refine stable_holding fun s s' h hgen _ hrep => ?_
  cases result with
  | error e => trivial
  | ok outcome =>
    refine ⟨fun hzero => ?_, fun hne => ?_⟩
    · obtain ⟨hlt, hun⟩ := hrep.1 hzero
      exact ⟨hgen ▸ hlt, hun.rely h⟩
    · rw [Published, hgen]
      exact h.own.mpr (hrep.2 hne)

theorem announce_outline :
    ThreadOutline t (fun _ s => Holding t since g .announced false s ∧ Current g s) announce
      (fun s => Holding t since g .idle false s ∧ Current g s) := by
  refine .store stable_current stable_current fun _ s hinv ⟨hold, hcur⟩ => ?_
  refine ⟨⟨hinv.announce hold.gate hold.phase, ?_⟩, ?_, hcur⟩
  · exact rely_of_holder hold.gate hold.gate rfl le_rfl (Or.inr rfl)
      (List.append_nil _).symm own_nil
  · exact ⟨hold.sampled, hold.gate, hold.readGate, rfl⟩

theorem gate_of_others {gate gate' : Option ℕ} (h : gate = none ∨ gate = some t)
    (h' : gate' = none ∨ gate' = some t) : ∀ t' ≠ t, (gate' = some t' ↔ gate = some t') := by
  intro t' ht
  have hnot : ∀ {gate : Option ℕ}, gate = none ∨ gate = some t → gate ≠ some t' := by
    rintro gate (rfl | rfl) heq
    · cases heq
    · exact ht (Option.some.inj heq).symm
  exact iff_of_false (hnot h') (hnot h)

theorem Guar.lock_readGate (hinv : Inv s) (hfree : s.readGate = none) :
    Guar t s { s with readGate := some t } := by
  refine ⟨hinv.set_readGate (hinv.not_between_of_free hfree) _, ?_⟩
  have hquiet : Quiet t s { s with readGate := some t } :=
    { reconnectGate := fun _ _ => Iff.rfl
      readGate := gate_of_others (Or.inl hfree) (Or.inr rfl)
      phase := rfl
      sessionGeneration := rfl
      installed := rfl }
  exact hquiet.rely (List.append_nil _).symm own_nil

theorem lockReadGate_outline :
    ThreadOutline t (fun _ s => Holding t since g .announced true s ∧ Current g s) (lockReadGate t)
      (fun s => Holding t since g .announced false s ∧ Current g s) := by
  refine .await stable_current (fun _ => stable_current) fun _ s hinv ⟨hold, hcur⟩ hfree => ?_
  refine ⟨Guar.lock_readGate hinv (of_decide_eq_true hfree), ?_, hcur⟩
  exact ⟨hold.sampled, hold.gate, iff_of_true rfl rfl, hold.phase⟩

theorem swapStreams_outline (rsock : List Poll) :
    ThreadOutline t (fun _ s => Holding t since g .swapped true s ∧ Swapped t since s)
      (swapStreams t since rsock) (fun s => Holding t since g .announced true s ∧ Current g s) := by
  refine .store stable_current stable_swapped fun env s hinv ⟨hold, hcur⟩ => ?_
  have hread : s.readGate = some t := hold.readGate.mpr rfl
  have hsampled : s.log[since]? = some ⟨t, .sampled s.sessionGeneration⟩ := by
    rw [hcur]
    exact hold.sampled
  refine ⟨⟨hinv.swap hold.gate hread hold.phase hsampled env.now rsock, ?_⟩, ?_, ?_⟩
  · exact rely_of_holder hold.gate hold.gate rfl le_rfl (Or.inl hread) rfl own_singleton
  · exact ⟨getElem?_append hold.sampled, hold.gate, hold.readGate, rfl⟩
  · exact ⟨env.now, rsock, List.mem_append_right _ (List.mem_singleton_self _)⟩

theorem resetMeters_outline :
    ThreadOutline t (fun _ s => Holding t since g .metersReset true s ∧ Swapped t since s)
      resetMeters (fun s => Holding t since g .swapped true s ∧ Swapped t since s) := by
  refine .store stable_swapped stable_swapped fun _ s hinv ⟨hold, hswapped⟩ => ?_
  refine ⟨⟨hinv.resetMeters hold.gate hold.phase, ?_⟩, ?_, hswapped⟩
  · exact rely_of_holder hold.gate hold.gate rfl le_rfl (Or.inr rfl)
      (List.append_nil _).symm own_nil
  · exact ⟨hold.sampled, hold.gate, hold.readGate, rfl⟩

theorem publish_outline :
    ThreadOutline t (fun _ s => Holding t since g .idle true s ∧ Published t since s)
      (publish t since) (fun s => Holding t since g .metersReset true s ∧ Swapped t since s) := by
  refine .store stable_swapped stable_published fun _ s hinv ⟨hold, hswapped⟩ => ?_
  obtain ⟨now, rsock, hmem⟩ := hswapped
  refine ⟨⟨hinv.publish hold.phase hmem, ?_⟩, ?_, ?_⟩
  · exact rely_of_holder hold.gate hold.gate rfl (Nat.le_succ _) (Or.inr rfl) rfl own_singleton
  · exact ⟨getElem?_append hold.sampled, hold.gate, hold.readGate, rfl⟩
  · -- The session that is published is the one that was installed.
    have hbalance : s.installed = s.sessionGeneration + 1 := by
      rw [hinv.balance, hold.phase]
      rfl
    refine List.mem_append_right _ (List.mem_singleton.mpr ?_)
    rw [hbalance]
    rfl

theorem install_outline (rsock : List Poll) (firmware : Option String) :
    ThreadOutline t (fun _ s => Holding t since g .idle true s ∧ Published t since s)
      (install t since rsock firmware)
      (fun s => Holding t since g .idle false s ∧ Current g s) := by
  refine .bind announce_outline fun _ => .bind lockReadGate_outline fun _ =>
    .bind (swapStreams_outline rsock) fun _ => .bind resetMeters_outline fun _ => ?_
  have hfirmware : ThreadOutline t
      (fun _ s => Holding t since g .metersReset true s ∧ Swapped t since s)
      (.store fun _ s => { s with firmware := firmware })
      (fun s => Holding t since g .metersReset true s ∧ Swapped t since s) := by
    refine .store stable_swapped stable_swapped fun _ s hinv ⟨hold, hswapped⟩ => ?_
    exact ⟨Guar.of_silent { hinv with } rfl rfl,
      ⟨hold.sampled, hold.gate, hold.readGate, hold.phase⟩, hswapped⟩
  by_cases hsome : firmware.isSome = true
  · simp only [hsome, if_true]
    exact .bind hfirmware fun _ => publish_outline
  · simp only [hsome]
    exact publish_outline

theorem sessionGap_outline {P : Shared → Prop} (hP : Stable (Rely t) P) :
    ThreadOutline t (fun _ => P) sessionGap P :=
  .bind (load_outline (Q := fun _ => P) hP (fun _ => hP) fun _ _ hs => hs)
    fun _ => .pure hP fun _ hs => hs

theorem rely_unlock_readGate (hread : s.readGate = some t) {new : List Event}
    (hnew : ∀ e ∈ new, e.thread = t) :
    ∀ t' ≠ t, Rely t' s { s with readGate := none, log := s.log ++ new } := by
  have hquiet : Quiet t s { s with readGate := none, log := s.log ++ new } :=
    { reconnectGate := fun _ _ => Iff.rfl
      readGate := gate_of_others (Or.inr hread) (Or.inl rfl)
      phase := rfl
      sessionGeneration := rfl
      installed := rfl }
  exact hquiet.rely rfl hnew

theorem unlockReadGate_outline :
    ThreadOutline t (fun _ s => Holding t since g .idle false s ∧ Published t since s)
      unlockReadGate (fun s => Holding t since g .idle true s ∧ Published t since s) := by
  refine .store stable_published stable_published fun _ s hinv ⟨hold, hpub⟩ => ?_
  have hread : s.readGate = some t := hold.readGate.mpr rfl
  refine ⟨⟨hinv.set_readGate (between_idle hold.phase) none, ?_⟩, ?_, hpub⟩
  · have hrely := rely_unlock_readGate hread own_nil
    rw [List.append_nil] at hrely
    exact hrely
  · exact ⟨hold.sampled, hold.gate, iff_of_false nofun Bool.noConfusion, hold.phase⟩

theorem attemptLoop_outline (policy : ReconnectPolicy) (left made : ℕ) (backoff : Time)
    (lastErr : Error) :
    ThreadOutline t
      (fun result s => Holding t since g .idle false s ∧ Reported t since g result s)
      (attemptLoop t since policy left made backoff lastErr)
      (fun s => Holding t since g .idle false s ∧ Current g s) := by
  induction left generalizing made backoff lastErr with
  | zero => exact .pure stable_current fun s hs => ⟨hs.1, trivial⟩
  | succ left ih =>
    have hinput : ∀ {α : Type} (f : Env → α), ThreadOutline t
        (fun _ s => Holding t since g .idle false s ∧ Current g s) (.input f)
        (fun s => Holding t since g .idle false s ∧ Current g s) := fun f =>
      .input (fun _ hs => Guar.refl hs) stable_current (fun _ => stable_current) fun _ _ _ hs => hs
    refine .bind (hinput _) fun handshake => ?_
    cases handshake with
    | ok rsock =>
      refine .bind (hinput _) fun firmware => .bind (install_outline rsock firmware) fun _ =>
        .bind (sessionGap_outline stable_published) fun gap =>
        .bind unlockReadGate_outline fun _ => .pure stable_published fun s hs => ⟨hs.1, ?_⟩
      exact ⟨fun hzero => absurd hzero (Nat.succ_ne_zero made), fun _ => hs.2⟩
    | error err =>
      by_cases hlast : left = 0
      · simp only [hlast, if_true]
        subst hlast
        exact ih (made + 1) backoff err
      · simp only [hlast, if_false]
        refine .bind (load_outline (Q := fun _ s => Holding t since g .idle false s ∧ Current g s)
          stable_current (fun _ => stable_current) fun _ _ hs => hs) fun _ => ?_
        exact ih (made + 1) _ err

theorem Inv.sampled_le (hinv : Inv s) (hsampled : s.log[since]? = some ⟨t, .sampled g⟩) :
    g ≤ s.sessionGeneration := by
  have hg : g = published (s.log.take since) := hinv.log since _ hsampled
  rw [hg, hinv.generation]
  exact published_take_le since

theorem finishReconnect_outline (result : Result ReconnectOutcome) :
    ThreadOutline t (fun _ => Resting t) (finishReconnect t since result)
      (fun s => Holding t since g .idle false s ∧ Reported t since g result s) := by
  refine .atomically (stable_reported result) (fun _ => stable_resting)
    fun _ s hinv ⟨hold, hrep⟩ => ?_
  have hread : s.readGate ≠ some t := fun h => Bool.noConfusion (hold.readGate.mp h)
  have hevent : EventOk s.log t (reconnectHappening since s.sessionGeneration result) ∧
      (reconnectHappening since s.sessionGeneration result).ordinary = true := by
    cases result with
    | error e => exact ⟨trivial, rfl⟩
    | ok outcome =>
      refine ⟨⟨hinv.generation, fun hzero => ?_, hrep.2⟩, rfl⟩
      obtain ⟨hlt, hun⟩ := hrep.1 hzero
      exact ⟨⟨g, hold.sampled, hinv.generation ▸ hlt⟩, hun⟩
  refine ⟨⟨(hinv.unlock_reconnectGate hold.phase).record hevent.2 hevent.1, ?_⟩, nofun, hread⟩
  have hquiet : Quiet t s ({ s with reconnectGate := none }.record t
      (reconnectHappening since s.sessionGeneration result)) :=
    { reconnectGate := gate_of_others (Or.inr hold.gate) (Or.inl rfl)
      readGate := fun _ _ => Iff.rfl
      phase := rfl
      sessionGeneration := rfl
      installed := rfl }
  exact hquiet.rely rfl own_singleton

/-- A reconnect that has sampled the generation and waits for its gate. -/
def Waiting (t since g : ℕ) (s : Shared) : Prop :=
  Resting t s ∧ s.log[since]? = some ⟨t, .sampled g⟩ ∧ Unpublished t since s

theorem stable_waiting : Stable (Rely t) (Waiting t since g) :=
  stable_resting_and fun _ _ h hs => ⟨h.stands hs.1, hs.2.rely h⟩

theorem sample_outline :
    ThreadOutline t (fun sample s => Waiting t sample.1 sample.2 s)
      (.atomically fun _ s =>
        ((s.log.length, s.sessionGeneration), s.record t (.sampled s.sessionGeneration)))
      (Resting t) := by
  refine .atomically stable_resting (fun _ => stable_waiting) fun _ s hinv hrest => ?_
  refine ⟨Guar.of_record (hinv.record rfl hinv.generation) rfl rfl, hrest, ?_, ?_⟩
  · exact List.getElem?_concat_length
  · -- Nothing has been published yet by a call that only begins here.
    intro k hmem
    rcases List.mem_append.mp hmem with hmem | hmem
    · exact Nat.lt_irrefl _ (hinv.log.published_since hmem)
    · cases List.mem_singleton.mp hmem

theorem lockReconnectGate_outline :
    ThreadOutline t (fun _ s => Holding t since g .idle false s ∧ Unpublished t since s)
      (lockReconnectGate t) (Waiting t since g) := by
  refine .await stable_waiting (fun _ => stable_holding fun _ _ h _ _ hun => hun.rely h)
    fun _ s hinv ⟨hrest, hsampled, hun⟩ hready => ?_
  have hfree : s.reconnectGate = none := of_decide_eq_true hready
  have hidle : s.phase = .idle := by
    by_contra hphase
    exact hinv.reconnectGate hphase hfree
  have hquiet : Quiet t s { s with reconnectGate := some t } :=
    { reconnectGate := gate_of_others (Or.inl hfree) (Or.inr rfl)
      readGate := fun _ _ => Iff.rfl
      phase := rfl
      sessionGeneration := rfl
      installed := rfl }
  refine ⟨⟨hinv.lock_reconnectGate hfree, ?_⟩, ?_, hun⟩
  · exact hquiet.rely (List.append_nil _).symm own_nil
  · exact ⟨hsampled, rfl, iff_of_false hrest.2 Bool.noConfusion, hidle⟩

theorem reconnect_outline (reconnectable : Bool) (policy : ReconnectPolicy) :
    ThreadOutline t (fun _ => Resting t) (reconnect t reconnectable policy) (Resting t) := by
  cases reconnectable with
  | false => exact .pure stable_resting fun _ hs => hs
  | true =>
    refine .bind sample_outline ?_
    rintro ⟨since, g⟩
    have hpending : ∀ {P : Shared → Prop} (f : ℕ → ℕ), Stable (Rely t) P →
        (∀ s, P s → P { s with pendingReconnects := f s.pendingReconnects }) →
        ThreadOutline t (fun _ => P)
          (.store fun _ s => { s with pendingReconnects := f s.pendingReconnects }) P := by
      intro P f hstable hP
      exact .store hstable hstable fun _ s hinv hs =>
        ⟨Guar.of_silent { hinv with } rfl rfl, hP s hs⟩
    have hstable : Stable (Rely t) fun s =>
        Holding t since g .idle false s ∧ Unpublished t since s :=
      stable_holding fun _ _ h _ _ hun => hun.rely h
    refine .bind (hpending (· + 1) stable_waiting fun s hs => hs) fun _ =>
      .bind lockReconnectGate_outline fun _ =>
      .bind (hpending (· - 1) hstable fun s hs =>
        ⟨⟨hs.1.sampled, hs.1.gate, hs.1.readGate, hs.1.phase⟩, hs.2⟩) fun _ => ?_
    -- Whether the session is still the sampled one decides what the call may report.
    have hload : ∀ current, Stable (Rely t) fun s => Holding t since g .idle false s ∧
        s.sessionGeneration = current ∧ g ≤ s.sessionGeneration ∧ Unpublished t since s := fun _ =>
      stable_holding fun s s' h hgen _ hs => ⟨hgen.trans hs.1, hgen ▸ hs.2.1, hs.2.2.rely h⟩
    refine .bind (load_outline hstable hload fun s hinv hs =>
      ⟨hs.1, rfl, hinv.sampled_le hs.1.sampled, hs.2⟩) fun current => ?_
    by_cases hsame : current = g
    · simp only [hsame, ne_eq, not_true_eq_false, if_false]
      refine .bind (.mono (attemptLoop_outline policy _ _ _ _) (hload g) fun s hs =>
        ⟨hs.1, hs.2.1⟩) finishReconnect_outline
    · simp only [ne_eq, hsame, not_false_eq_true, if_true]
      refine .bind (sessionGap_outline (hload current)) fun gap =>
        .mono (finishReconnect_outline _) (hload current) fun s hs => ⟨hs.1, ?_, nofun⟩
      intro _
      exact ⟨lt_of_le_of_ne hs.2.2.1 fun h => hsame (hs.2.1.symm.trans h.symm), hs.2.2.2⟩

/-! ### Reading -/

/-- What a call knows while it holds the read gate. -/
structure Reading (t since : ℕ) (s : Shared) : Prop where
  /-- It holds the read gate. -/
  gate : s.readGate = some t
  /-- And not the reconnect gate. -/
  reconnectGate : s.reconnectGate ≠ some t
  /-- It began at that point of the log. -/
  began : since ≤ s.log.length
  /-- What was published by then is installed. -/
  session : published (s.log.take since) ≤ s.installed

theorem stable_reading {A : Shared → Prop}
    (hA : ∀ s s', Rely t s s' → s'.installed = s.installed → A s → A s') :
    Stable (Rely t) fun s => Reading t since s ∧ A s := by
  rintro s s' h ⟨hread, ha⟩
  have hinst := h.reading hread.gate
  obtain ⟨new, hlog, -⟩ := h.log
  refine ⟨?_, hA s s' h hinst ha⟩
  exact {
    gate := h.readGate.mpr hread.gate
    reconnectGate := fun hgate => hread.reconnectGate (h.reconnectGate.mp hgate)
    began := by
      rw [hlog, List.length_append]
      exact Nat.le_add_right_of_le hread.began
    session := by
      rw [hlog, List.take_append_of_le_length hread.began, hinst]
      exact hread.session }

/-- What a call under the read gate has found out: where its result comes from, and why it taints
the stream. -/
def Answered (call : Console.ReaderCall) (answer : Except Error Console.Reply × Bool) (s : Shared) :
    Prop :=
  (1 ≤ s.installed → FromSession s.log s.installed call answer.1) ∧
    (answer.2 = true → (∃ id timeout, call = .getBinaryNode id timeout) ∧
      answer.1 = .error .timeout)

theorem stable_answered (call : Console.ReaderCall) (answer : Except Error Console.Reply × Bool) :
    Stable (Rely t) fun s => Reading t since s ∧ Answered call answer s := by
  refine stable_reading fun s s' h hinst hans => ⟨fun hk => ?_, hans.2⟩
  obtain ⟨new, hlog, -⟩ := h.log
  rw [hinst] at hk ⊢
  rw [hlog]
  exact (hans.1 hk).append

theorem readerBody_outline (call : Console.ReaderCall) :
    ThreadOutline t (fun answer s => Reading t since s ∧ Answered call answer s) (readerBody call)
      (fun s => Reading t since s ∧ True) := by
  refine .atomically (stable_reading fun _ _ _ _ h => h) (stable_answered call)
    fun env s hinv ⟨hread, _⟩ => ?_
  have hbetween := hinv.not_between hread.gate hread.reconnectGate
  refine ⟨Guar.of_silent (hinv.readerBody hbetween env.world call) rfl rfl, ?_, ?_, ?_⟩
  · exact ⟨hread.gate, hread.reconnectGate, hread.began, hread.session⟩
  · exact hinv.fromSession hbetween env.world call
  · intro htaints
    have hrun : outcome (call.run env.world) s.reader =
        ((outcome (call.run env.world) s.reader).1,
          (outcome (call.run env.world) s.reader).2) := rfl
    rcases call.run_streamTainted hinv.capture hrun with hsame | hcapture
    · -- The taint was there already, or there is none.
      rw [Bool.and_eq_true, hsame] at htaints
      rw [htaints.1] at htaints
      cases htaints.2
    · exact hcapture

theorem taintStream_outline (call : Console.ReaderCall) (result : Except Error Console.Reply) :
    ThreadOutline t (fun _ s => Reading t since s ∧ Answered call (result, true) s)
      (taintStream t since call result)
      (fun s => Reading t since s ∧ Answered call (result, true) s) := by
  refine .store (stable_answered call _) (stable_answered call _) fun _ s hinv ⟨hread, hans⟩ => ?_
  have hbetween := hinv.not_between hread.gate hread.reconnectGate
  refine ⟨Guar.of_record (hinv.taint hbetween (hans.2 rfl)) rfl rfl, ?_, ?_, hans.2⟩
  · refine ⟨hread.gate, hread.reconnectGate, ?_, ?_⟩
    · exact hread.began.trans (List.length_append ▸ Nat.le_add_right _ _)
    · rw [Shared.record, List.take_append_of_le_length hread.began]
      exact hread.session
  · exact fun hk => (hans.1 hk).append

theorem finishReader_outline (call : Console.ReaderCall) (result : Except Error Console.Reply)
    (taints : Bool) :
    ThreadOutline t (fun _ => Resting t) (finishReader t since call result)
      (fun s => Reading t since s ∧ Answered call (result, taints) s) := by
  refine .atomically (stable_answered call _) (fun _ => stable_resting)
    fun _ s hinv ⟨hread, hans⟩ => ?_
  have hbetween := hinv.not_between hread.gate hread.reconnectGate
  have hevent : EventOk s.log t (.returned since s.installed call result) :=
    ⟨hread.began, hread.session, hans.1⟩
  refine ⟨⟨(hinv.set_readGate hbetween none).record rfl hevent, ?_⟩, hread.reconnectGate, nofun⟩
  exact rely_unlock_readGate hread.gate own_singleton

theorem readerCall_outline (call : Console.ReaderCall) :
    ThreadOutline t (fun _ => Resting t) (readerCall t call) (Resting t) := by
  have hlock : ThreadOutline t (fun since s => Reading t since s ∧ True) (lockReadGate t)
      (Resting t) := by
    refine .await stable_resting (fun _ => stable_reading fun _ _ _ _ h => h)
      fun _ s hinv hrest hready => ?_
    refine ⟨Guar.lock_readGate hinv (of_decide_eq_true hready), ⟨rfl, hrest.1, le_rfl, ?_⟩, trivial⟩
    rw [List.take_length, ← hinv.generation]
    exact hinv.balance ▸ Nat.le_add_right _ _
  refine .bind hlock fun since => .bind (readerBody_outline call) ?_
  rintro ⟨result, taints⟩
  cases taints with
  | true =>
    exact .bind (taintStream_outline call result) fun _ => finishReader_outline call result true
  | false => exact finishReader_outline call result false

/-! ### Keepalives and meters -/

theorem usable_outline {α : Type} {tainted usable : Thread α}
    (htainted : ThreadOutline t (fun _ => Resting t) tainted (Resting t))
    (husable : ThreadOutline t (fun _ => Resting t) usable (Resting t)) :
    ThreadOutline t (fun _ => Resting t)
      (do if ← .load (·.reader.streamTainted) then tainted else usable) (Resting t) := by
  refine .bind (load_outline (Q := fun _ => Resting t) stable_resting (fun _ => stable_resting)
    fun _ _ hs => hs) fun b => ?_
  cases b with
  | true => exact htainted
  | false => exact husable

theorem pure_outline {α : Type} (a : α) :
    ThreadOutline t (fun _ => Resting t) (pure a) (Resting t) :=
  .pure stable_resting fun _ hs => hs

theorem keepAlive_outline : ThreadOutline t (fun _ => Resting t) keepAlive (Resting t) := by
  refine usable_outline (pure_outline _) ?_
  refine .atomically stable_resting (fun _ => stable_resting) fun env s hinv hrest => ?_
  exact ⟨Guar.of_silent (hinv.keepAlive env.world) rfl rfl, hrest⟩

theorem meterSocket_spec (env : Env) (hinv : Inv s) :
    Inv (meterSocket env s).2 ∧ (meterSocket env s).2.control = s.control ∧
      (meterSocket env s).2.log = s.log := by
  unfold meterSocket
  cases s.mtrs.port with
  | some port => exact ⟨hinv, rfl, rfl⟩
  | none =>
    cases env.bind with
    | error kind => exact ⟨hinv, rfl, rfl⟩
    | ok port => exact ⟨{ hinv with }, rfl, rfl⟩

theorem subscribe_outline (meters : List Meter) :
    ThreadOutline t (fun _ => Resting t) (subscribe t meters) (Resting t) := by
  refine .atomically stable_resting (fun _ => stable_resting) fun env s hinv hrest => ?_
  obtain ⟨hinv', hcontrol, hlog⟩ := meterSocket_spec env hinv
  simp only
  generalize hsocket : meterSocket env s = socket at hinv' hcontrol hlog ⊢
  obtain ⟨port, s'⟩ := socket
  have hrest' : Resting t s' := by
    simp only [Shared.control, Prod.mk.injEq] at hcontrol
    exact ⟨hcontrol.1 ▸ hrest.1, hcontrol.2.1 ▸ hrest.2⟩
  have hsilent : Guar t s s' := Guar.of_silent hinv' hcontrol hlog
  cases port with
  | error e => exact ⟨hsilent, hrest'⟩
  | ok port =>
    simp only
    cases subscribeMessage (max s.mtrs.nextMeterId 1) port meters with
    | error e => exact ⟨hsilent, hrest'⟩
    | ok buf =>
      simp only
      cases env.write with
      | error kind => exact ⟨hsilent, hrest'⟩
      | ok u =>
        refine ⟨Guar.of_record (e := .subscribed s'.installed (max s.mtrs.nextMeterId 1) s'.phase)
          ((hinv'.write buf).subscribe _ _ rfl) hcontrol ?_, hrest'⟩
        rw [← hlog]
        rfl

theorem requestMeter_outline (meters : List Meter) :
    ThreadOutline t (fun _ => Resting t) (requestMeter t meters) (Resting t) := by
  refine usable_outline (pure_outline _) ?_
  cases encodeMeters [] meters with
  | error e => exact pure_outline _
  | ok encoded => exact subscribe_outline meters

theorem renew_outline : ThreadOutline t (fun _ => Resting t) (renew t) (Resting t) := by
  refine .atomically stable_resting (fun _ => stable_resting) fun env s hinv hrest => ?_
  by_cases hdue : s.mtrs.keepAliveMetersTimer ≤ env.now
  · simp only [hdue, if_true]
    cases hport : s.mtrs.port with
    | none => exact ⟨Guar.refl hinv, hrest⟩
    | some port =>
      cases hid : s.mtrs.activeMeterId with
      | none =>
        have hrearmed : Inv (rearm env.now s) := { hinv with }
        exact ⟨Guar.of_silent hrearmed rfl rfl, hrest⟩
      | some id =>
        cases env.write with
        | error kind => exact ⟨Guar.refl hinv, hrest⟩
        | ok u =>
          have hevent : EventOk s.log t (.renewed s.installed id s.phase) := fun hphase =>
            latestId_of_keptId ((hinv.meters hphase).symm.trans hid)
          have hwritten := hinv.write (renewMessage id port)
          have hrearmed : Inv (rearm env.now (s.write (renewMessage id port))) := { hwritten with }
          exact ⟨Guar.of_record (hrearmed.record rfl hevent) rfl rfl, hrest⟩
  · simp only [hdue, if_false]
    exact ⟨Guar.refl hinv, hrest⟩

theorem keepAliveMeters_outline :
    ThreadOutline t (fun _ => Resting t) (keepAliveMeters t) (Resting t) :=
  usable_outline (pure_outline _) renew_outline

end Session

end LibWing
