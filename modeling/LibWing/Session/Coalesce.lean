import LibWing.Session.BulkOutline

/-!
# Reconnects are coalesced

Concurrent reconnects replace a session once.

* `Coalesced` : what the log of a run says about reconnects;
* `run_coalesced` : it says so after every run.
-/

namespace LibWing

open Interleave

namespace Session

/-- Reconnects are coalesced. -/
structure Coalesced (s : Shared) : Prop where
  /-- A call that replaces a session sampled the generation of that session, and nothing was
  published since it did. -/
  replaces : ∀ (p t since session : ℕ) (now : Time) (rsock : List Poll),
    s.log[p]? = some ⟨t, .swapped since session now rsock⟩ →
    ∃ g, s.log[since]? = some ⟨t, .sampled g⟩ ∧ since < p ∧ session = g + 1 ∧
      ∀ q t' since' k : ℕ, since < q → q < p → s.log[q]? ≠ some ⟨t', .published since' k⟩
  /-- A call that returns without an attempt was overtaken by another one. -/
  overtaken : ∀ p t since session : ℕ, s.log[p]? = some ⟨t, .reconnected since 0 session⟩ →
    ∃ g, s.log[since]? = some ⟨t, .sampled g⟩ ∧ ∃ q t' since' k : ℕ, since < q ∧ q < p ∧
      s.log[q]? = some ⟨t', .published since' k⟩ ∧ ¬ (t' = t ∧ since' = since)
  /-- The generation counts the streams that were swapped in; a session that is not published yet is
  the only difference. -/
  counts : swaps s.log = s.sessionGeneration + s.phase.between.toNat
  /-- Between reconnects, every swap was published. -/
  settled : s.reconnecting = false → s.sessionGeneration = swaps s.log
  /-- What is published was swapped in by the same call. -/
  publishes : ∀ p t since session : ℕ, s.log[p]? = some ⟨t, .published since session⟩ →
    session = published (s.log.take p) + 1 ∧
      ∃ (q : ℕ) (now : Time) (rsock : List Poll), q < p ∧
        s.log[q]? = some ⟨t, .swapped since session now rsock⟩
  /-- Of the calls that sampled a generation, one swaps streams in. -/
  unique : ∀ (g p t since session p' t' since' session' : ℕ) (now now' : Time)
    (rsock rsock' : List Poll),
    s.log[p]? = some ⟨t, .swapped since session now rsock⟩ →
    s.log[p']? = some ⟨t', .swapped since' session' now' rsock'⟩ →
    s.log[since]? = some ⟨t, .sampled g⟩ → s.log[since']? = some ⟨t', .sampled g⟩ →
    p = p' ∧ t = t' ∧ since = since'

variable {log : List Event} {t since p : ℕ}

/-- What stood before a place stands in the log. -/
theorem getElem?_of_take {q : ℕ} {e : Event} (h : (log.take p)[q]? = some e) :
    q < p ∧ log[q]? = some e := by
  obtain ⟨hlt, -⟩ := List.getElem?_eq_some_iff.mp h
  rw [List.length_take] at hlt
  have hqp : q < p := hlt.trans_le (Nat.min_le_left _ _)
  rw [List.getElem?_take_of_lt hqp] at h
  exact ⟨hqp, h⟩

/-- A call that swapped streams in: what it sampled, and when. -/
theorem LogOk.swapped (hlog : LogOk log) {session : ℕ} {now : Time} {rsock : List Poll}
    (hp : log[p]? = some ⟨t, .swapped since session now rsock⟩) :
    session = swaps (log.take p) + 1 ∧ swaps (log.take p) = published (log.take p) ∧ since < p ∧
      log[since]? = some ⟨t, .sampled (published (log.take p))⟩ := by
  obtain ⟨hsession, hbalance, hsampled⟩ := hlog p _ hp
  exact ⟨hsession, hbalance, getElem?_of_take hsampled⟩

/-- A sample is the number of the sessions published before. -/
theorem LogOk.sampled (hlog : LogOk log) {g : ℕ} (hs : log[since]? = some ⟨t, .sampled g⟩) :
    g = published (log.take since) :=
  hlog since _ hs

theorem LogOk.swapped_sample (hlog : LogOk log) {session g : ℕ} {now : Time} {rsock : List Poll}
    (hp : log[p]? = some ⟨t, .swapped since session now rsock⟩)
    (hs : log[since]? = some ⟨t, .sampled g⟩) : swaps (log.take p) = g := by
  obtain ⟨-, hbalance, -, hsampled⟩ := hlog.swapped hp
  rw [hs] at hsampled
  cases hsampled
  exact hbalance

theorem LogOk.swapped_unique (hlog : LogOk log) {g p' t' since' session session' : ℕ}
    {now now' : Time} {rsock rsock' : List Poll}
    (hp : log[p]? = some ⟨t, .swapped since session now rsock⟩)
    (hp' : log[p']? = some ⟨t', .swapped since' session' now' rsock'⟩)
    (hs : log[since]? = some ⟨t, .sampled g⟩) (hs' : log[since']? = some ⟨t', .sampled g⟩) :
    p = p' := by
  have hcount : swaps (log.take p) = swaps (log.take p') :=
    (hlog.swapped_sample hp hs).trans (hlog.swapped_sample hp' hs').symm
  -- Were one before the other, it would be counted there.
  rcases Nat.lt_trichotomy p p' with hlt | heq | hgt
  · exact absurd hcount (countP_take_lt (fun e => e.happening.isSwapped) hp rfl hlt).ne
  · exact heq
  · exact absurd hcount (countP_take_lt (fun e => e.happening.isSwapped) hp' rfl hgt).ne'

theorem Inv.coalesced {s : Shared} (h : Inv s) : Coalesced s where
  replaces := by
    intro p t since session now rsock hp
    obtain ⟨hsession, hbalance, hlt, hsampled⟩ := h.log.swapped hp
    refine ⟨_, hsampled, hlt, by rw [hsession, hbalance], ?_⟩
    intro q t' since' k hq hqp hpub
    have hsample := h.log.sampled hsampled
    have hless : published (s.log.take q) < published (s.log.take p) :=
      countP_take_lt (fun e => e.happening.isPublished) hpub rfl hqp
    have hle : published (s.log.take since) ≤ published (s.log.take q) :=
      countP_take_mono (fun e => e.happening.isPublished) hq.le
    omega
  overtaken := by
    intro p t since session hp
    obtain ⟨-, hzero, -⟩ := h.log p _ hp
    obtain ⟨⟨g, hsampled, hlt⟩, hown⟩ := hzero rfl
    obtain ⟨hsince, hsampled⟩ := getElem?_of_take hsampled
    refine ⟨g, hsampled, ?_⟩
    rw [h.log.sampled hsampled] at hlt
    obtain ⟨q, e, hq, hqp, he, hpub⟩ :=
      exists_of_countP_take_lt (fun e => e.happening.isPublished) hsince.le hlt
    obtain ⟨t', happening⟩ := e
    cases happening
    case published since' k =>
      have hne : since ≠ q := by
        rintro rfl
        rw [hsampled] at he
        cases he
      refine ⟨q, t', since', k, lt_of_le_of_ne hq hne, hqp, he, ?_⟩
      rintro ⟨rfl, rfl⟩
      refine hown k (List.mem_iff_getElem?.mpr ⟨q, ?_⟩)
      rw [List.getElem?_take_of_lt hqp]
      exact he
    all_goals cases hpub
  counts := by
    rw [← h.installed]
    exact h.balance
  settled := by
    intro hrec
    have hidle : s.phase = .idle := by
      by_contra hphase
      rw [h.reconnecting, decide_eq_true hphase] at hrec
      cases hrec
    rw [← h.installed, h.balance, between_idle hidle]
    rfl
  publishes := by
    intro p t since session hp
    obtain ⟨hsession, now, rsock, hmem⟩ := h.log p _ hp
    obtain ⟨q, hq⟩ := List.mem_iff_getElem?.mp hmem
    obtain ⟨hqp, hq⟩ := getElem?_of_take hq
    exact ⟨hsession, q, now, rsock, hqp, hq⟩
  unique := by
    intro g p t since session p' t' since' session' now now' rsock rsock' hp hp' hs hs'
    have heq := h.log.swapped_unique hp hp' hs hs'
    subst heq
    rw [hp] at hp'
    cases hp'
    exact ⟨rfl, rfl, rfl⟩

/-- **Reconnects are coalesced.**  In every run, no call replaces a session that was published after
the call sampled the generation; a call returns without an attempt only if another call published a
session meanwhile; and the generation counts the streams that were swapped in. -/
theorem run_coalesced {cfg : Config} {now : Time} {rsock : List Poll} {moves : List (Move Env Op)}
    {sys : System Shared Env} (hrun : run cfg now rsock moves = some sys) : Coalesced sys.shared :=
  (run_inv hrun).coalesced

/-- Two clones reconnect at once: both sample the generation before the first one publishes. -/
def pairOfReconnects : List (Move Env Op) :=
  .call 0 (.reconnect ⟨1, 0, 0⟩) :: sections 0 1 (.calm []) ++
    .call 1 (.reconnect ⟨1, 0, 0⟩) :: sections 1 1 (.calm []) ++
    sections 0 14 (.calm []) ++ sections 1 6 (.calm [])

/-- The second one returns the session of the first. -/
theorem pairOfReconnects_coalesced :
    ∃ sys, run ⟨true, fun _ => false⟩ 0 [] pairOfReconnects = some sys ∧
      sys.shared.log[5]? = some ⟨1, .reconnected 1 0 1⟩ ∧ Coalesced sys.shared := by
  have hlog : (run ⟨true, fun _ => false⟩ 0 [] pairOfReconnects).map (·.shared.log[5]?) =
      some (some ⟨1, .reconnected 1 0 1⟩) := by decide +kernel
  obtain ⟨sys, hrun, hlast⟩ := Option.map_eq_some_iff.mp hlog
  exact ⟨sys, hrun, hlast, run_coalesced hrun⟩

end Session

end LibWing
