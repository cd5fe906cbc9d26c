import LibWing.Session.Coalesce

/-!
# The fence around bulk writes

A bulk call writes to one session only: the one that was in place when it began.

* `Fenced` : what the log of a run says about bulk writes;
* `run_fenced` : it says so after every run.
-/

namespace LibWing

open Interleave

namespace Session

/-- Bulk writes stay on the session they began on. -/
structure Fenced (log : List Event) : Prop where
  /-- A batch is handed to the session that is in place, which is the one that was in place when its
  call loaded the generation; and neither flag is set. -/
  home : ∀ (p t since session : ℕ) (reconnecting streamTainted : Bool) (bytes : List UInt8),
    log[p]? = some ⟨t, .handed since session reconnecting streamTainted bytes⟩ →
    reconnecting = false ∧ streamTainted = false ∧ session = swaps (log.take p) ∧ since < p ∧
      session = swaps (log.take since) ∧
      log[since]? = some ⟨t, .bulkBegan (published (log.take since)) session⟩
  /-- The batches of one call land on one session. -/
  one : ∀ (p p' t since session session' : ℕ) (reconnecting reconnecting' streamTainted
      streamTainted' : Bool) (bytes bytes' : List UInt8),
    log[p]? = some ⟨t, .handed since session reconnecting streamTainted bytes⟩ →
    log[p']? = some ⟨t, .handed since session' reconnecting' streamTainted' bytes'⟩ →
    session = session'
  /-- The items of a batch that was not written are reported as errors. -/
  reported : ∀ (t since : ℕ) (slots : List ℕ) (results : List (Result Unit)),
    ⟨t, .unwritten since slots⟩ ∈ log → ⟨t, .bulkReturned since results⟩ ∈ log →
    ∀ j ∈ slots, ∃ e, results[j]? = some (.error e)

variable {log : List Event} {t since p : ℕ}

theorem LogOk.handed (hlog : LogOk log) {session : ℕ} {reconnecting streamTainted : Bool}
    {bytes : List UInt8}
    (hp : log[p]? = some ⟨t, .handed since session reconnecting streamTainted bytes⟩) :
    reconnecting = false ∧ streamTainted = false ∧ session = swaps (log.take p) ∧ since < p ∧
      session = swaps (log.take since) ∧
      log[since]? = some ⟨t, .bulkBegan (published (log.take since)) session⟩ := by
  obtain ⟨hsession, hrec, htaint, g, hbegan⟩ := hlog p _ hp
  obtain ⟨hlt, hbegan⟩ := getElem?_of_take hbegan
  obtain ⟨hg, hhome⟩ := hlog since _ hbegan
  refine ⟨hrec, htaint, hsession, hlt, hhome, ?_⟩
  rw [← hg]
  exact hbegan

/-- A call puts its batches down before it returns, so its results account for all of them. -/
theorem LogOk.reported (hlog : LogOk log) {slots : List ℕ} {results : List (Result Unit)}
    (hun : ⟨t, .unwritten since slots⟩ ∈ log) (hret : ⟨t, .bulkReturned since results⟩ ∈ log) :
    ∀ j ∈ slots, ∃ e, results[j]? = some (.error e) := by
  obtain ⟨u, hu⟩ := List.mem_iff_getElem?.mp hun
  obtain ⟨r, hr⟩ := List.mem_iff_getElem?.mp hret
  have hbefore : ∀ {i j : ℕ} {e : Event}, log[i]? = some e → i < j → e ∈ log.take j := by
    intro i j e hi hij
    refine List.mem_iff_getElem?.mpr ⟨i, ?_⟩
    rw [List.getElem?_take_of_lt hij]
    exact hi
  rcases Nat.lt_trichotomy u r with hlt | heq | hgt
  · obtain ⟨-, hall⟩ := hlog r _ hr
    exact hall slots (hbefore hu hlt)
  · subst heq
    rw [hu] at hr
    cases hr
  · obtain ⟨-, hnone⟩ := hlog u _ hu
    exact absurd (hbefore hr hgt) (hnone results)

/-- **Bulk writes are fenced.**  In every run, each batch is handed to the session that was in place
when its call loaded the generation, while neither `reconnecting` nor `stream_tainted` is set; and
a batch that is not written is reported as an error for each of its items. -/
theorem run_fenced {cfg : Config} {now : Time} {rsock : List Poll} {moves : List (Move Env Op)}
    {sys : System Shared Env} (hrun : run cfg now rsock moves = some sys) :
    Fenced sys.shared.log := by
  have hlog := (run_inv hrun).log
  constructor
  · intro p t since session reconnecting streamTainted bytes hp
    exact hlog.handed hp
  · intro p p' t since session session' reconnecting reconnecting' streamTainted streamTainted'
      bytes bytes' hp hp'
    -- Both are the session that the first event of the call names.
    obtain ⟨-, -, -, -, hhome, -⟩ := hlog.handed hp
    obtain ⟨-, -, -, -, hhome', -⟩ := hlog.handed hp'
    exact hhome.trans hhome'.symm
  · intro t since slots results hun hret
    exact hlog.reported hun hret

/-- One clone begins a `set_nodes`, another reconnects before the first flush; a third `set_nodes`
begins afterwards. -/
def overtakenSetNodes : List (Move Env Op) :=
  .call 1 (.setNodes [(7, .int 3)]) :: sections 1 1 (.calm []) ++
    .call 0 (.reconnect ⟨1, 0, 0⟩) :: sections 0 15 (.calm []) ++ sections 1 3 (.calm []) ++
    .call 2 (.setNodes [(8, .int 4)]) :: sections 2 4 (.calm [])

/-- The first is reported as failed, the second is written to the new session. -/
theorem overtakenSetNodes_fenced :
    ∃ sys, run ⟨true, fun _ => false⟩ 0 [] overtakenSetNodes = some sys ∧
      sys.shared.log.drop 5 =
        [⟨1, .unwritten 0 [0]⟩, ⟨1, .bulkReturned 0 [.error .reconnecting]⟩, ⟨2, .bulkBegan 1 1⟩,
          ⟨2, .handed 7 1 false false [0xd7, 0, 0, 0, 8, 4]⟩, ⟨2, .bulkReturned 7 [.ok ()]⟩] ∧
      Fenced sys.shared.log := by
  have hlog : (run ⟨true, fun _ => false⟩ 0 [] overtakenSetNodes).map (·.shared.log.drop 5) =
      some [⟨1, .unwritten 0 [0]⟩, ⟨1, .bulkReturned 0 [.error .reconnecting]⟩, ⟨2, .bulkBegan 1 1⟩,
        ⟨2, .handed 7 1 false false [0xd7, 0, 0, 0, 8, 4]⟩, ⟨2, .bulkReturned 7 [.ok ()]⟩] := by
    decide +kernel
  obtain ⟨sys, hrun, hlast⟩ := Option.map_eq_some_iff.mp hlog
  exact ⟨sys, hrun, hlast, run_fenced hrun⟩

end Session

end LibWing
